import SshChatter.Lib.CString
import SshChatter.Lib.LinkedHeap

namespace SshChatter.SyncHistory
open CString LinkedHeap List

/-- This is `chat_message_t` without its next pointer. -/
structure ChatMessage where
  username : Bytes
  messageBody : Bytes
  timestamp : Int
  deriving DecidableEq

def maxChatHistorySize : Nat := 50

/-- The history is the head pointer, the size counter and the nodes that live in the heap. -/
structure History where
  heap : Heap ChatMessage
  chatHistoryHead : Option Nat
  chatHistorySize : Nat
  historyMutexInitialized : Bool

/-- The history starts empty after `ssh_chatter_sync_init`. -/
def History.empty : History := ⟨.empty, none, 0, true⟩

def ChatMessage.sameText (old new : ChatMessage) : Bool :=
  old.messageBody = new.messageBody ∧ old.username = new.username

def repeatsHead (history : History) (newMsg : ChatMessage) : Bool :=
  match (history.chatHistoryHead.bind history.heap.cells).map Cell.value with
  | some head => head.sameText newMsg
  | none => false

def pushMessage (history : History) (newMsg : ChatMessage) : History :=
  { history with
    heap := history.heap.alloc ⟨newMsg, history.chatHistoryHead⟩
    chatHistoryHead := some history.heap.brk
    chatHistorySize := history.chatHistorySize + 1 }

/-- The walk frees the node that it reaches and ends the list at the node before it. -/
def evictOldest (history : History) : History :=
  match history.heap.walk (maxChatHistorySize - 1) none history.chatHistoryHead with
  | (some prev, some cur) =>
    { history with
      heap := (history.heap.free cur).setNext prev none
      chatHistorySize := history.chatHistorySize - 1 }
  | _ => history

def addMessageToHistory (history : History) (newMsg : ChatMessage) : History :=
  if history.historyMutexInitialized = false then history
  else if repeatsHead history newMsg then history
  else
    let pushed := pushMessage history newMsg
    if maxChatHistorySize < pushed.chatHistorySize then evictOldest pushed else pushed

def addAll (history : History) (messages : List ChatMessage) : History :=
  messages.foldl addMessageToHistory history

def accept (log : List ChatMessage) (newMsg : ChatMessage) : List ChatMessage :=
  match log.head? with
  | some head => if head.sameText newMsg then log else newMsg :: log
  | none => newMsg :: log

def accepted (messages : List ChatMessage) : List ChatMessage := messages.foldl accept []

/-- The counter is the number of reachable nodes, and these hold the newest accepted messages. -/
def Kept (history : History) (log : List ChatMessage) : Prop :=
  ∃ nodes, Chain history.heap history.chatHistoryHead nodes ∧ history.chatHistorySize = nodes.length ∧
    nodes.map Prod.snd = log.take maxChatHistorySize

def survivors (log : List ChatMessage) : Nat :=
  if log.length ≤ maxChatHistorySize then maxChatHistorySize else maxChatHistorySize - 1

/-- The list holds the survivors, and the counter stops at the limit. -/
structure Shape (history : History) (log : List ChatMessage) : Prop where
  ready : history.historyMutexInitialized
  size : history.chatHistorySize = min log.length maxChatHistorySize
  nodes : ∃ nodes, Chain history.heap history.chatHistoryHead nodes ∧
    nodes.map Prod.snd = log.take (survivors log)

section Steps

variable {history : History} {log : List ChatMessage}

theorem survivors_ge (log : List ChatMessage) : 49 ≤ survivors log := by
  unfold survivors maxChatHistorySize
  split <;> decide

theorem Shape.head_value (shape : Shape history log) :
    (history.chatHistoryHead.bind history.heap.cells).map Cell.value = log.head? := by
  obtain ⟨nodes, chain, values⟩ := shape.nodes
  have many := survivors_ge log
  rw [chain.head_value, ← head?_map, values, head?_take, if_neg (by omega)]

/-- The eviction keeps one node less than the limit. -/
theorem evictOldest_chain {nodes : List (Nat × ChatMessage)}
    (chain : Chain history.heap history.chatHistoryHead nodes) (full : maxChatHistorySize ≤ nodes.length) :
    Chain (evictOldest history).heap (evictOldest history).chatHistoryHead
        (nodes.take (maxChatHistorySize - 1)) ∧
      (evictOldest history).chatHistorySize = history.chatHistorySize - 1 ∧
      (evictOldest history).historyMutexInitialized = history.historyMutexInitialized := by
  have walked := chain.walk (maxChatHistorySize - 1) none
  simp only [maxChatHistorySize] at full walked ⊢
  have prevIn : 48 < nodes.length := by omega
  have curIn : 49 < nodes.length := by omega
  have front : nodes.take 49 = nodes.take 48 ++ [nodes[48]] := by
    rw [← take_concat_get' nodes 48 prevIn]
  have back : nodes.drop 49 = nodes[49] :: nodes.drop 50 := drop_eq_getElem_cons curIn
  have split : nodes = nodes.take 48 ++ nodes[48] :: nodes[49] :: nodes.drop 50 := by
    rw [← back, ← drop_eq_getElem_cons prevIn, take_append_drop]
  rw [front, back] at walked
  rw [split] at chain
  have evicted := chain.evict
  rw [← front] at evicted
  have result : evictOldest history = { history with
      heap := (history.heap.free nodes[49].1).setNext nodes[48].1 none
      chatHistorySize := history.chatHistorySize - 1 } := by
    simp only [evictOldest, maxChatHistorySize, walked, getLast?_concat,
      head?_cons, Option.map_some, Option.or_none]
  rw [result]
  exact ⟨evicted, rfl, rfl⟩

/-- A new text in front of the list keeps the shape. -/
theorem Shape.push (shape : Shape history log) (newMsg : ChatMessage) :
    Shape (let pushed := pushMessage history newMsg
      if maxChatHistorySize < pushed.chatHistorySize then evictOldest pushed else pushed)
      (newMsg :: log) := by
  obtain ⟨nodes, chain, values⟩ := shape.nodes
  have pushed : Chain (pushMessage history newMsg).heap (pushMessage history newMsg).chatHistoryHead
      ((history.heap.brk, newMsg) :: nodes) := chain.alloc newMsg
  have size := shape.size
  have length := congrArg length values
  rw [length_map, length_take] at length
  have most := survivors_ge log
  dsimp only
  split
  next passed =>
    -- The counter passes the limit, with one node more than the limit or exactly the limit.
    have full : maxChatHistorySize ≤ log.length := by
      simp only [pushMessage] at passed
      omega
    have many : maxChatHistorySize ≤ ((history.heap.brk, newMsg) :: nodes).length := by
      simp only [length_cons, maxChatHistorySize] at full ⊢
      omega
    obtain ⟨evicted, counter, ready⟩ := evictOldest_chain pushed many
    refine ⟨ready.trans shape.ready, ?_, _, evicted, ?_⟩
    · rw [counter]
      simp only [pushMessage, length_cons]
      omega
    · have fewer : survivors (newMsg :: log) = maxChatHistorySize - 1 := by
        rw [survivors, if_neg (by simp only [length_cons]; omega)]
      rw [fewer, map_take, map_cons, values]
      simp only [maxChatHistorySize]
      rw [take_succ_cons, take_succ_cons, take_take, min_eq_left (by omega)]
  next within =>
    have room : log.length < maxChatHistorySize := by
      simp only [pushMessage] at within
      omega
    have all : survivors log = maxChatHistorySize := if_pos (by omega)
    have all' : survivors (newMsg :: log) = maxChatHistorySize :=
      if_pos (by simp only [length_cons]; omega)
    refine ⟨shape.ready, ?_, _, pushed, ?_⟩
    · simp only [pushMessage, length_cons]
      omega
    · rw [take_of_length_le (by omega)] at values
      rw [map_cons, values, take_of_length_le]
      simp only [length_cons]
      omega

theorem Shape.addMessage (shape : Shape history log) (newMsg : ChatMessage) :
    Shape (addMessageToHistory history newMsg) (accept log newMsg) := by
  have head := shape.head_value
  rw [addMessageToHistory, if_neg (by simp [shape.ready])]
  cases newest : log.head? with
  | none =>
    simp only [repeatsHead, accept, newest, head]
    exact shape.push newMsg
  | some =>
    simp only [repeatsHead, accept, newest, head]
    split
    · exact shape
    · exact shape.push newMsg

theorem Shape.addAll (shape : Shape history log) (messages : List ChatMessage) :
    Shape (addAll history messages) (messages.foldl accept log) := by
  induction messages generalizing history log with
  | nil => exact shape
  | cons message messages ih => exact ih (shape.addMessage message)

theorem Shape.start : Shape .empty [] := ⟨rfl, rfl, [], .nil, rfl⟩

theorem Shape.kept_iff (shape : Shape history log) : Kept history log ↔ log.length ≤ maxChatHistorySize := by
  obtain ⟨nodes, chain, values⟩ := shape.nodes
  have length := congrArg length values
  rw [length_map, length_take] at length
  have size := shape.size
  constructor
  · intro kept
    obtain ⟨nodes', chain', counter, _⟩ := kept
    rw [← chain.unique chain'] at counter
    by_contra beyond
    rw [survivors, if_neg beyond] at length
    unfold maxChatHistorySize at *
    omega
  · intro within
    rw [survivors, if_pos within] at values length
    exact ⟨nodes, chain, by omega, values⟩

end Steps

/-- After every sequence of messages the history is kept exactly when at most fifty were accepted. -/
theorem history_kept_iff (messages : List ChatMessage) :
    Kept (addAll .empty messages) (accepted messages) ↔ (accepted messages).length ≤ maxChatHistorySize :=
  (Shape.start.addAll messages).kept_iff

def numberedMessages (count : Nat) : List ChatMessage :=
  (range count).map fun index => ⟨str "alice", replicate index (byte 'a'), 0⟩

/-- Fifty-one different messages lose a node and leave a wrong counter. -/
theorem history_overflow_drops_two :
    ¬ ∀ messages, Kept (addAll .empty messages) (accepted messages) := by
  intro claim
  have within := (Shape.start.addAll (numberedMessages 51)).kept_iff.mp (claim (numberedMessages 51))
  exact absurd within (by decide +kernel)

end SshChatter.SyncHistory
