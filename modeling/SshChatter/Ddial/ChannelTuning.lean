import SshChatter.Ddial.MvStation
import SshChatter.Lib.SlotTable

namespace SshChatter.Ddial
open CString AtomicProgram DdialProtocol LeaseTable

/-- This is `DDIAL_MV_SLOT_LIST`. -/
def slotListRoom : Nat := 16

def listAdd (list : List UInt32) (v : UInt32) : List UInt32 × Bool :=
  if v ∈ list then (list, true)
  else if slotListRoom ≤ list.length then (list, false)
  else (list ++ [v], true)

/-- This is `mv_list_remove`: the last item takes the place of the one that goes. -/
def listRemove (list : List UInt32) (v : UInt32) : List UInt32 :=
  if v ∈ list then (list.set (list.idxOf v) (list.getLast?.getD v)).dropLast else list

def listToggle (list : List UInt32) (v : UInt32) : List UInt32 :=
  if v ∈ list then listRemove list v else (listAdd list v).1

theorem listAdd_mem {list : List UInt32} {v w : UInt32} (inside : w ∈ (listAdd list v).1) : w ∈ list ∨ w = v := by
  rw [listAdd] at inside
  split_ifs at inside
  · exact .inl inside
  · exact .inl inside
  · rcases List.mem_append.mp inside with before | last
    · exact .inl before
    · exact .inr (List.mem_singleton.mp last)

theorem listRemove_mem {list : List UInt32} {v w : UInt32} (inside : w ∈ listRemove list v) : w ∈ list := by
  rw [listRemove] at inside
  split_ifs at inside with present
  · rcases List.mem_or_eq_of_mem_set (List.mem_of_mem_dropLast inside) with before | last
    · exact before
    · cases ends : list.getLast? with
      | none =>
        rw [ends] at last
        rw [last]
        exact present
      | some =>
        rw [ends] at last
        rw [last]
        exact List.mem_of_getLast? ends
  · exact inside

section Stations

def roomChannel : UInt16 := 1

def maxChannel : UInt32 := 999

def guestMaxChannel : UInt32 := 4

def bootSeconds : Int := 600

/-- The channels of a session. -/
structure Dial where
  channel : UInt16
  monitored : List UInt32
  lastMonitor : UInt16
  deriving DecidableEq

/-- The fields of `ddial_session_t` that decide what a session says and hears on the channels. -/
structure Tuning extends Dial where
  slot : UInt16
  joinedAt : Int
  fullMuted : Bool
  ignoreSlots : List UInt32
  ignoreMembers : List UInt32
  nullSlots : List UInt32
  codeCapture : Bool
  code : Bytes
  sentryStart : Int
  sentryCount : UInt32

/-- A line that is picked up, and a line whose caller has given a handle. -/
def Tuning.start (slot : UInt16) (joinedAt : Int) : Tuning where
  channel := roomChannel
  monitored := []
  lastMonitor := 0
  slot := slot
  joinedAt := joinedAt
  fullMuted := false
  ignoreSlots := []
  ignoreMembers := []
  nullSlots := []
  codeCapture := false
  code := []
  sentryStart := 0
  sentryCount := 0

structure Boot where
  channel : UInt16
  handle : CText 31

/-- This is `ddial_mv_channel_meta_t`. -/
structure ChannelMeta where
  channel : UInt16
  topic : CText 159
  question : CText 255
  asker : CText 31

structure ChannelStation (n : Nat) extends MvStation n where
  tunings : Fin n → Tuning
  boots : Table 63 Boot
  sentry : Bool
  metas : List ChannelMeta

variable {n : Nat}

def ChannelStation.empty : ChannelStation n where
  toMvStation := .empty
  tunings _ := .start 0 0
  boots _ := ⟨⟨0, .zero⟩, 0⟩
  sentry := false
  metas := []

/-- One session is tuned anew. -/
def ChannelStation.retune (state : ChannelStation n) (who : Fin n) (change : Tuning → Tuning) : ChannelStation n :=
  { state with tunings := Function.update state.tunings who (change (state.tunings who)) }

def ChannelStation.isBooted (state : ChannelStation n) (channel : UInt16) (handle : Bytes) (now : Int) : Prop :=
  Held state.boots now fun boot => boot.channel = channel ∧ handleKey boot.handle.text = handleKey handle

instance (state : ChannelStation n) (channel : UInt16) (handle : Bytes) (now : Int) :
    Decidable (state.isBooted channel handle now) := inferInstanceAs (Decidable (Held _ _ _))

def ChannelStation.addBoot (state : ChannelStation n) (channel : UInt16) (handle : CText 31) (now : Int) :
    ChannelStation n :=
  { state with boots := grant state.boots now ⟨channel, handle⟩ bootSeconds }

end Stations

section Delivery

/-- This is `ddial_mv_public_t`. -/
structure PublicLine where
  channel : UInt16
  fromSlot : UInt16
  fromMember : UInt32
  line : Bytes
  plainBody : Option Bytes
  membersOnly : Bool
  system : Bool

/-- This is the body of the loop of `mv_mentions`, behind an at sign. -/
def mentionedBehind (handle text : Bytes) : Bool :=
  handleKey (text.take handle.length) = handleKey handle ∧
    ((text.drop handle.length).head?.any fun c => isDigit c ∨ (65 ≤ c ∧ c ≤ 90) ∨ (97 ≤ c ∧ c ≤ 122)) = false

def mentions (handle : Bytes) : Bytes → Bool
  | [] => false
  | c :: text => (handle ≠ [] ∧ c = byte '@' ∧ mentionedBehind handle text) ∨ mentions handle text

def Dial.tunedTo (dial : Dial) (channel : UInt16) : Prop :=
  channel = 0 ∨ dial.channel = channel ∨ channel.toUInt32 ∈ dial.monitored

instance (dial : Dial) (channel : UInt16) : Decidable (dial.tunedTo channel) :=
  inferInstanceAs (Decidable (_ ∨ _ ∨ _))

/-- The lines that `mv_deliver_cb` keeps from a session on the channel. -/
def screened (sess : MvSession) (tuning : Tuning) (pub : PublicLine) : Prop :=
  (pub.membersOnly ∧ sess.memberNo = 0) ∨
    (pub.system = false ∧ ¬ (pub.fromSlot ≠ 0 ∧ pub.fromSlot = tuning.slot) ∧
      ((pub.fromSlot ≠ 0 ∧ pub.fromSlot.toUInt32 ∈ tuning.ignoreSlots) ∨
        (pub.fromMember ≠ 0 ∧ pub.fromMember ∈ tuning.ignoreMembers) ∨
        (sess.mv.repliesOn = false ∧ (pub.plainBody.bind List.head?) = some (byte '@') ∧
          (pub.plainBody.any (mentions sess.handle.text)) = false)))

instance (sess : MvSession) (tuning : Tuning) (pub : PublicLine) : Decidable (screened sess tuning pub) :=
  inferInstanceAs (Decidable (_ ∨ _))

def strippedRoom : Nat := 4096

/-- The text that `mv_deliver_cb` writes to a session, without bells. -/
def heardText (sess : MvSession) (tuning : Tuning) (pub : PublicLine) : Option Bytes :=
  if sess.loggedIn ∧ tuning.tunedTo pub.channel ∧ ¬ screened sess tuning pub then
    let line :=
      if pub.fromSlot ≠ 0 ∧ pub.fromSlot.toUInt32 ∈ tuning.nullSlots then stripAnsi pub.line strippedRoom else pub.line
    let mark :=
      if pub.channel = 0 ∨ tuning.channel = pub.channel then []
      else str "[T" ++ decimal pub.channel.toNat ++ str "] "
    some ((mark ++ line ++ [13, 10]).take (strippedRoom + 31))
  else none

variable {n : Nat}

/-- A public line, the session that it comes from, who hears it, and whether the Chatter room and the link get it. -/
structure Publication (n : Nat) where
  sender : Option (Fin n)
  pub : PublicLine
  heard : List (Fin n × Bytes)
  room : Bool
  link : Option Bytes

def ChannelStation.deliver (state : ChannelStation n) (sender : Option (Fin n)) (pub : PublicLine) : Publication n where
  sender := sender
  pub := pub
  heard := (List.finRange n).filterMap fun who =>
    (heardText (state.sessions who) (state.tunings who) pub).map fun text => (who, text)
  room := false
  link := none

def ChannelStation.notice (state : ChannelStation n) (sender : Fin n) (channel : UInt16) (text : Bytes) :
    Publication n :=
  state.deliver (some sender) ⟨channel, 0, 0, text, none, false, true⟩

end Delivery

end SshChatter.Ddial
