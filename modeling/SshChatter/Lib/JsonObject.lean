import SshChatter.Lib.JsonText

namespace JsonText
open CString

/-- White space of any length. -/
abbrev Gap := {text : Bytes // Blank text}

def Gap.none : Gap := ⟨[], List.forall_mem_nil _⟩

structure JsonString where
  body : Bytes
  out : Bytes
  reads : Reads body out

def JsonString.token (string : JsonString) : Bytes := quote :: (string.body ++ [quote])

def JsonString.word (text : Bytes) (plain : ∀ c ∈ text, isPlain c) : JsonString := ⟨text, text, reads_plain plain⟩

/-- The values of a flat object. -/
inductive Scalar where
  | null
  | bool (value : Bool)
  | number (token : Bytes) (isNumber : NumberToken token)
  | string (content : JsonString)

def Scalar.text : Scalar → Bytes
  | .null => str "null"
  | .bool value => if value then str "true" else str "false"
  | .number token _ => token
  | .string content => content.token

/-- A member with the white space around its name and its value. -/
structure Member where
  before : Gap
  name : JsonString
  gap : Gap
  after : Gap
  value : Scalar
  trail : Gap

def Member.text (member : Member) : Bytes :=
  member.before.val ++ member.name.token ++ member.gap.val ++
    byte ':' :: (member.after.val ++ member.value.text ++ member.trail.val)

def Member.compact (name : JsonString) (value : Scalar) : Member :=
  ⟨Gap.none, name, Gap.none, Gap.none, value, Gap.none⟩

def laterText (members : List Member) : Bytes := members.flatMap fun member => byte ',' :: member.text

/-- An object whose values are scalars and whose names differ. An object without members holds white space. -/
structure FlatObject where
  members : List Member
  gap : Gap
  distinct : (members.map fun member => member.name.out).Nodup

def membersText (gap : Gap) : List Member → Bytes
  | [] => gap.val
  | member :: later => member.text ++ laterText later

def FlatObject.text (object : FlatObject) : Bytes :=
  byte '\x7b' :: (membersText object.gap object.members ++ [byte '\x7d'])

def FlatObject.names (object : FlatObject) : List Bytes := object.members.map fun member => member.name.out

/-- A flat object with the value of one member left out. -/
structure Slot where
  earlier : List Member
  before : Gap
  name : JsonString
  gap : Gap
  after : Gap
  trail : Gap
  later : List Member

def Slot.member (slot : Slot) (value : Scalar) : Member :=
  ⟨slot.before, slot.name, slot.gap, slot.after, value, slot.trail⟩

def Slot.members (slot : Slot) (value : Scalar) : List Member := slot.earlier ++ slot.member value :: slot.later

def Slot.IsOf (slot : Slot) (object : FlatObject) : Prop := ∃ value, object.members = slot.members value

def Slot.head (slot : Slot) : Bytes :=
  byte '\x7b' :: (slot.earlier.flatMap (fun member => member.text ++ [byte ',']) ++ slot.before.val ++
    slot.name.token ++ slot.gap.val)

def Slot.tail (slot : Slot) : Bytes := slot.trail.val ++ laterText slot.later ++ [byte '\x7d']

def Slot.fill (slot : Slot) (value : Scalar) : Bytes :=
  slot.head ++ byte ':' :: (slot.after.val ++ (value.text ++ slot.tail))

/-- A value does not run on into the text behind it. -/
theorem Slot.tail_head (slot : Slot) :
    ∃ c rest, slot.tail = c :: rest ∧ (isBlank c ∨ c = byte ',' ∨ c = byte '\x7d') := by
  rw [tail]
  cases trail : slot.trail.val with
  | nil =>
    cases slot.later with
    | nil => exact ⟨_, _, rfl, .inr (.inr rfl)⟩
    | cons => exact ⟨_, _, rfl, .inr (.inl rfl)⟩
  | cons c rest =>
    have blank := slot.trail.property c (by rw [trail]; exact List.mem_cons_self)
    exact ⟨c, rest ++ laterText slot.later ++ [byte '\x7d'], rfl, .inl blank⟩

end JsonText
