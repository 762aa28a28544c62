import SshChatter.Ddial.ChannelCommand

namespace SshChatter.Ddial
open CString AtomicProgram DdialProtocol LeaseTable

/-- The commands that say something on the channel of the session. -/
inductive ChatWord where
  | eightBall
  | paced (name : Bytes)
  | taco
  | styled
  | giphy
  | anim
  | joke
  | membersOnly
  | localOnly
  | action
  | uno
  deriving DecidableEq

/-- The commands of a station. The quiet ones answer on the line of the caller, send private messages or mail, or change
what no channel depends on. -/
inductive MvWord where
  | quiet
  | chat (word : ChatWord)
  | topic
  | ask
  | answer
  | spaces
  | signup
  | sentry
  | null
  | code
  | cosysops
  | replies
  | say
  | boot
  | ignore
  | fullMute
  | password
  | handle
  | profile
  | tune
  deriving DecidableEq

/-- The words of `ddial_mv_dispatch` before the colour of a message, in their order. -/
def longWords : List (String × MvWord) :=
  [("?m", .quiet), ("@?", .quiet), ("8ball", .chat .eightBall), ("300", .chat (.paced (str "300"))),
    ("1200", .chat (.paced (str "1200"))), ("2400", .chat (.paced (str "2400"))), ("whois", .quiet), ("voice", .quiet),
    ("topic", .topic), ("taco", .chat .taco), ("stats", .quiet), ("spaces", .spaces), ("signup", .signup),
    ("sentry", .sentry), ("scramble", .chat .styled), ("reverse", .chat .styled), ("remember", .quiet),
    ("post", .quiet), ("pre", .quiet), ("null", .null), ("lorem", .quiet), ("image", .quiet), ("help", .quiet),
    ("giphy", .chat .giphy), ("forgot", .quiet), ("font", .quiet), ("define", .quiet), ("code", .code), ("cls", .quiet),
    ("buzz", .quiet), ("bior", .quiet), ("bdayremove", .quiet), ("bday", .quiet), ("baud", .quiet),
    ("anim", .chat .anim), ("answer", .answer), ("ask", .ask), ("jk", .chat .joke), ("ls", .quiet), ("sm", .quiet),
    ("sc", .cosysops), ("re", .replies), ("ai", .quiet), ("us", .quiet), ("ts", .say), ("tb", .boot), ("ig", .ignore),
    ("xx", .fullMute), ("bv", .quiet), ("bg", .quiet), ("pv", .chat .membersOnly), ("ps", .chat .localOnly),
    ("pw=", .password)]

/-- The words of `ddial_mv_dispatch` behind the boxes of the mail, in their order. -/
def shortWords : List (String × MvWord) :=
  [("i", .quiet), ("h", .handle), ("s", .quiet), ("w", .quiet), ("p", .quiet), ("r", .profile), ("b", .quiet),
    ("q", .quiet), ("t", .tune), ("j", .tune), ("a", .chat .action), ("o", .quiet), ("e", .quiet), ("n", .quiet),
    ("d", .quiet), ("u", .chat .uno), ("x", .quiet), ("k", .quiet), ("v", .quiet)]

def isLetter (c : UInt8) : Bool := (65 ≤ c ∧ c ≤ 90) ∨ (97 ≤ c ∧ c ≤ 122)

/-- This is `mv_is`: the text behind a command word. -/
def wordRest (cmd name : Bytes) : Option Bytes :=
  if handleKey (cmd.take name.length) ≠ handleKey name then none
  else if name.getLast?.any isLetter ∧ (cmd.drop name.length).head?.any isLetter then none
  else some (cmd.drop name.length)

def firstWord (words : List (String × MvWord)) (cmd : Bytes) : Option (MvWord × Bytes) :=
  words.findSome? fun word => (wordRest cmd (str word.1)).map fun rest => (word.2, rest)

/-- The condition on a colour in `ddial_mv_dispatch`. -/
def isColorWord : Bytes → Bool
  | [] => false
  | c :: rest =>
    toLower c = byte 'c' ∧
      (rest = [] ∨ rest.head? = some (byte '#') ∨ rest.head? = some 32 ∨
        (6 ≤ rest.length ∧ (rest.take 6).all (fun c => (hexValue c).isSome) ∧
          ((rest.drop 6).head? = none ∨ (rest.drop 6).head? = some (byte ','))))

/-- The condition on a box of the mail in `ddial_mv_dispatch`. -/
def isBoxWord : Bytes → Bool
  | [] => false
  | c :: rest =>
    toLower c = byte 'm' ∧
      (rest = [] ∨ rest.head? = some (byte '=') ∨ rest.head?.any isDigit ∨
        (rest.head?.any isLetter ∧ rest.tail.head?.any isLetter = false))

/-- The command that a text asks for, and the text behind its word. -/
def findWord (cmd : Bytes) : Option (MvWord × Bytes) :=
  if cmd = str "+" ∨ cmd = str "-" then some (.quiet, [])
  else
    match firstWord longWords cmd with
    | some found => some found
    | none => if isColorWord cmd ∨ isBoxWord cmd then some (.quiet, []) else firstWord shortWords cmd

/-- This is `ddial_parse_command` for what `ddial_mv_dispatch` declines: the text of a chat. -/
def legacyChat (cmd : Bytes) : Option Bytes :=
  match cmd with
  | c :: rest => if toLower c = byte 'c' then some ((rest.dropWhile isSpace).take 511) else none
  | [] => none

def ChatWord.forMembers : ChatWord → Bool
  | .giphy | .joke | .localOnly => false
  | _ => true

/-- The taco of `mv_cmd_taco`. -/
def tacoText (msg : Bytes) : Bytes :=
  str "\x1b[33m   ,~~~~~~~~~,\x1b[0m\r\n\x1b[33m  /\x1b[32m~*~*~*~*~*\x1b[33m\\\x1b[0m  " ++
    (if msg = [] then str "Taco time!" else msg) ++
    str "\r\n\x1b[33m (\x1b[31m@\x1b[32m~\x1b[31m@\x1b[32m~\x1b[31m@\x1b[32m~\x1b[31m@\x1b[32m~\x1b[31m@\x1b[33m)" ++
    str "\x1b[0m\r\n\x1b[33m  \\_________/\x1b[0m"

/-- What a command says on the channel, when it says something. -/
def ChatWord.text (env : Surroundings) (r : Bytes) : ChatWord → Option (Bytes × ChatOpts)
  | .eightBall =>
    if skipWs r = [] then none
    else some ((str "asks the Magic 8-Ball \"" ++ skipWs r ++ str "\" ... " ++ env.ball).take 511,
      { ChatOpts.plain with action := true, noTransform := true })
  | .paced name => some (r, { ChatOpts.plain with
      paceBaud := .ofNat (digitsValue (name ++ r.takeWhile isDigit)) })
  | .taco => some ((tacoText (skipWs r)).take 4095, { ChatOpts.plain with block := true })
  | .styled => if skipWs r = [] then none else some (r, .plain)
  | .giphy =>
    if skipWs r = [] then none
    else env.gif.map fun gif =>
      ((str "[GIF: " ++ skipWs r ++ str "] " ++ gif).take 767, { ChatOpts.plain with noTransform := true })
  | .anim =>
    match parseUint r with
    | none => none
    | some (n, p) =>
      if n < 1 ∨ 5 < n ∨ skipWs p = [] then none else some (p, { ChatOpts.plain with anim := n.toNat })
  | .joke => some (env.joke, { ChatOpts.plain with noTransform := true })
  | .membersOnly => some (r, { ChatOpts.plain with membersOnly := true })
  | .localOnly => some (r, { ChatOpts.plain with localOnly := true })
  | .action =>
    if r.head?.any isDigit ∨ skipWs r = [] then none else some (r, { ChatOpts.plain with action := true })
  | .uno => if skipWs r = [] then none else some (skipWs r, { ChatOpts.plain with uno := true })

section Dispatch

variable {n : Nat} (derive : Derive) (envCosysop : UInt32 → Bool)

/-- A command on the members and the sessions. -/
def ChannelStation.performed (state : ChannelStation n) (who : Fin n) (program : MemberProgram) : ChannelStation n :=
  { state with toMvStation := state.toMvStation.perform derive envCosysop who program }

variable (state : ChannelStation n) (who : Fin n) (env : Surroundings)

/-- A command of `ddial_mv_dispatch` that says something on the channel. -/
def ChannelStation.chatCommand (word : ChatWord) (r : Bytes) : Turn n :=
  if word.forMembers ∧ (state.sessions who).memberNo = 0 then (state, [])
  else
    match word.text env r with
    | none => (state, [])
    | some (raw, opts) => state.publicChat who env (state.tunings who).channel raw opts

/-- This is `mv_cmd_signup` with its notice. -/
def ChannelStation.signupCommand (r : Bytes) : Turn n :=
  let sess := state.sessions who
  let next := { state with toMvStation := cmdSignup derive envCosysop state.toMvStation who r env.salt env.now }
  if sess.memberNo = 0 ∧ skipWs r ≠ [] then
    match (memberSignup derive state.members sess.handle.text (skipWs r) env.salt env.now).2 with
    | .error _ => (next, [])
    | .ok no =>
      (next, [next.notice who (next.tunings who).channel ((str "* " ++ (next.sessions who).handle.text ++
        str " is now member #" ++ decimal no.toNat ++ str ".").take 127)])
  else (next, [])

/-- This is `mv_cmd_handle` with its notice. -/
def ChannelStation.handleCommand (r : Bytes) : Turn n :=
  let sess := state.sessions who
  let next := state.performed derive envCosysop who
    (cmdHandle sess (fun handle => (state.findHandle handle).any fun other => other ≠ who) env.depth r)
  if (next.sessions who).handle.text = sess.handle.text then (next, [])
  else
    (next, [next.notice who (next.tunings who).channel ((state.lineName who ++ str " is now " ++
      (next.sessions who).handle.text ++ str ".").take 159)])

/-- This is `mv_toggle_msg` for the replies. -/
def ChannelStation.repliesCommand (r : Bytes) : ChannelStation n :=
  let sess := state.sessions who
  let arg := skipWs r
  let turned :=
    if arg.head? = some (byte '+') then true
    else if arg.head? = some (byte '-') then false
    else if handleKey arg = str "show" then sess.mv.repliesOn
    else !sess.mv.repliesOn
  let sess := { sess with mv := { sess.mv with repliesOn := turned } }
  ChannelStation.performed derive envCosysop { state with toMvStation := state.put who sess } who (saveMember sess)

/-- The branches of `ddial_mv_dispatch`. -/
def ChannelStation.command (word : MvWord) (r : Bytes) : Turn n :=
  let member := (state.sessions who).memberNo ≠ 0
  match word with
  | .quiet => (state, [])
  | .chat word => state.chatCommand who env word r
  | .topic => if member then state.cmdTopic who r else (state, [])
  | .ask => if member then state.cmdAsk who r else (state, [])
  | .answer => if member then state.cmdAnswer who r else (state, [])
  | .spaces => state.cmdSpaces who env r
  | .signup => state.signupCommand derive envCosysop who env r
  | .sentry => state.cmdSentry who r
  | .null => if member then state.cmdNull who r else (state, [])
  | .code =>
    if ¬ member then (state, [])
    else if skipWs r = [] then (state.retune who fun tuning => { tuning with codeCapture := true, code := [] }, [])
    else state.publicChat who env (state.tunings who).channel (skipWs r) { ChatOpts.plain with block := true }
  | .cosysops => (state.performed derive envCosysop who (cmdCosysops (state.sessions who) r), [])
  | .replies => (state.repliesCommand derive envCosysop who r, [])
  | .say => if member then state.cmdSay who env r else (state, [])
  | .boot => if member then state.cmdBoot who env r else (state, [])
  | .ignore => if member then state.cmdIgnore who r else (state, [])
  | .fullMute => if member then state.cmdFullMute who r else (state, [])
  | .password => (state.performed derive envCosysop who (cmdPassword (state.sessions who) r env.salt), [])
  | .handle => state.handleCommand derive envCosysop who env r
  | .profile => (state.performed derive envCosysop who (cmdProfile (state.sessions who) r), [])
  | .tune => state.cmdTune who env r

def isQuitText (text : Bytes) : Bool :=
  match text with
  | c :: d :: rest => c = byte '/' ∧ toLower d = byte 'q' ∧ rest.head?.any isLetter = false
  | _ => false

def commandText (rest : Bytes) : Bytes := if rest.head? = some (byte '/') then rest.tail else rest

/-- This is `ddial_mv_dispatch`, and `ddial_session_process_line` for what it declines. -/
def ChannelStation.dispatch (line : Bytes) : Turn n :=
  let tuning := state.tunings who
  let text := skipWs line
  if tuning.codeCapture then
    if handleKey text = str "/code" ∨ handleKey text = str "/end" ∨ text = str "." then state.codeFinish who env
    else state.codeAppend who env line
  else if (state.sessions who).profileCapture then
    let sess := { state.sessions who with profileCapture := false }
    (ChannelStation.performed derive envCosysop { state with toMvStation := state.put who sess } who
      (cmdProfile sess ((byte '=' :: line).take 513)), [])
  else if tuning.fullMuted ∧ text ≠ [] ∧ isQuitText text = false then (state, [])
  else
    match text with
    | [] => (state, [])
    | c :: rest =>
      if c = byte ';' then
        if tuning.lastMonitor = 0 then (state, []) else state.publicChat who env tuning.lastMonitor rest .plain
      else if c ≠ byte '/' then state.publicChat who env tuning.channel text .plain
      else
        match findWord (commandText rest) with
        | some (word, r) => state.command derive envCosysop who env word r
        | none =>
          match legacyChat rest with
          | some body => state.publicChat who env tuning.channel body .plain
          | none => (state, [])

/-- What happens at a station. Other lines come from the link, from the Chatter room and from the clock. -/
inductive ChannelEvent (n : Nat) where
  | connect (who : Fin n) (slot : UInt16) (now : Int)
  | line (who : Fin n) (text : CStr) (env : Surroundings)
  | disconnect (who : Fin n) (now : Int)
  | publish (pub : PublicLine) (now : Int)

def ChannelEvent.now : ChannelEvent n → Int
  | .connect _ _ now => now
  | .line _ _ env => env.now
  | .disconnect _ now => now
  | .publish _ now => now

/-- A caller types the line at the prompt. -/
def ChannelStation.login (text : CStr) : Turn n :=
  let next := { state with toMvStation := state.toMvStation.step derive envCosysop (.login who env.now text) }
  match (next.sessions who).loggedIn with
  | true =>
    let entered := next.retune who fun tuning => .start tuning.slot env.now
    (entered, [entered.deliver (some who)
      ⟨0, (entered.tunings who).slot, 0, (entered.lineName who ++ str " has dialed in.").take 4095, none, false, true⟩])
  | false => (next, [])

def ChannelStation.turn (state : ChannelStation n) : ChannelEvent n → Turn n
  | .connect who slot _ =>
    if (state.sessions who).loggedIn then (state, [])
    else (state.retune who fun _ => .start slot 0, [])
  | .line who text env =>
    if (state.sessions who).loggedIn then state.dispatch derive envCosysop who env text.val
    else state.login derive envCosysop who env text
  | .disconnect who now =>
    let next := { state with toMvStation := state.toMvStation.step derive envCosysop (.disconnect who now) }
    (next.retune who fun tuning => .start tuning.slot 0,
      if (state.sessions who).loggedIn then
        [state.deliver (some who) ⟨0, (state.tunings who).slot, 0,
          (state.lineName who ++ str " has hung up.").take 4095, none, false, true⟩]
      else [])
  | .publish pub _ => (state, [state.deliver none pub])

def ChannelStation.step (state : ChannelStation n) (event : ChannelEvent n) : ChannelStation n :=
  (state.turn derive envCosysop event).1

end Dispatch

end SshChatter.Ddial
