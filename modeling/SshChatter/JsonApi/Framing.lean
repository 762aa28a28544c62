import SshChatter.JsonApi.Text

namespace SshChatter.JsonApi
open CString JsonText List

/-- This is `json_api_request_t`. The items that are not written yet are empty. -/
structure Request where
  type : CBuffer 32
  username : CBuffer 256
  message : CBuffer 4096
  url : CBuffer 256
  caption : CBuffer 256
  label : CBuffer 32
  question : CBuffer 4096
  options : List (CBuffer 4096)
  optionCount : Nat
  action : CBuffer 16
  choice : Nat
  hasChoice : Bool
  allowMultiple : Bool
  isOperator : Bool
  requestId : CBuffer 64
  requestIdIsNumber : Bool
  hasRequestId : Bool
  token : CBuffer 1024
  toName : CBuffer (256 + 64)
  limit : Nat
  hasLimit : Bool
  before : Nat
  deriving DecidableEq

section Fields

variable {capacity : Nat} [NeZero capacity]

def trimWhitespaceInplace (buffer : CBuffer capacity) : CBuffer capacity := CBuffer.print (trimSpace buffer.text)

def extractTrimmed (line key : Bytes) : CBuffer capacity :=
  let field : CBuffer capacity × Bool := extractString line key
  if field.2 then trimWhitespaceInplace field.1 else field.1

end Fields

def requestType (line : Bytes) : Option Bytes :=
  let type : CBuffer 32 × Bool := extractString line (quoted (str "type"))
  let command : CBuffer 32 × Bool := extractString line (quoted (str "command"))
  if type.2 then some (normalizeToken type.1.text)
  else if command.2 then some (normalizeToken command.1.text)
  else none

def requestIdFields (line : Bytes) : CBuffer 64 × Bool × Bool :=
  let field : CBuffer 64 × Bool := extractString line (quoted (str "id"))
  if field.2 then (field.1, false, true)
  else
    match extractUint line (quoted (str "id")) with
    | some requestId => (CBuffer.print (decimal requestId), true, true)
    | none => (field.1, false, false)

/-- This is `json_api_parse_request`. A line without a type is refused with the error text. -/
def parseRequest (line : Bytes) : Except Bytes Request :=
  match requestType line with
  | none => .error (str "Missing request type.")
  | some type =>
    let action : CBuffer 16 × Bool := extractString line (quoted (str "action"))
    let options : List (CBuffer 4096) × Nat × Bool := extractStringArray line (quoted (str "options")) 5
    let choice := extractUint line (quoted (str "choice"))
    let isOperator :=
      match extractBool line (quoted (str "is_operator")) with
      | some value => some value
      | none => extractBool line (quoted (str "operator"))
    let id := requestIdFields line
    let limit := extractUint line (quoted (str "limit"))
    .ok {
      type := CBuffer.print type
      username := extractTrimmed line (quoted (str "username"))
      message := (extractString line (quoted (str "message"))).1
      url := (extractString line (quoted (str "url"))).1
      caption := (extractString line (quoted (str "caption"))).1
      label := (extractString line (quoted (str "label"))).1
      question := (extractString line (quoted (str "question"))).1
      options := if options.2.2 then options.1.map trimWhitespaceInplace else options.1
      optionCount := options.2.1
      action := if action.1.text = [] then action.1 else CBuffer.print (normalizeToken action.1.text)
      choice := choice.getD 0
      hasChoice := choice.isSome
      allowMultiple := (extractBool line (quoted (str "allow_multiple"))).getD true
      isOperator := isOperator.getD false
      requestId := id.1
      requestIdIsNumber := id.2.1
      hasRequestId := id.2.2
      token := (extractString line (quoted (str "token"))).1
      toName := extractTrimmed line (quoted (str "to"))
      limit := limit.getD 0
      hasLimit := limit.isSome
      before := (extractUint line (quoted (str "before"))).getD 0 }

/-- This is `json_builder_append`. The length that `vsnprintf` returns is an `int`, and a text that is longer is not
appended. -/
def builderAppend (builder text : Bytes) : Bytes := if text.length ≤ 2 ^ 31 - 1 then builder ++ text else builder

def appendId (builder : Bytes) (request : Option Request) : Bytes :=
  match request with
  | none => builder
  | some request =>
    if request.hasRequestId then
      if request.requestIdIsNumber then builderAppend builder (str ",\"id\":" ++ request.requestId.text)
      else builderAppend builder (str ",\"id\":\"" ++ request.requestId.text ++ str "\"")
    else builder

def appendResult (builder : Bytes) (resultJson : Option Bytes) : Bytes :=
  match resultJson with
  | none => builder
  | some result => if result = [] then builder else builderAppend builder (str ",\"result\":" ++ result)

def statusText (ok : Bool) : Bytes := if ok then str "ok" else str "error"

def escapedMessage (ok : Bool) (message : Option Bytes) : Bytes := escapeString (message.getD (statusText ok))

def responseLine (request : Option Request) (ok : Bool) (message resultJson : Option Bytes) : Bytes :=
  let builder := builderAppend [] (str "\x7b\"type\":\"response\"")
  let builder := appendId builder request
  let builder := builderAppend builder
    (str ",\"status\":\"" ++ statusText ok ++ str "\",\"message\":\"" ++ escapedMessage ok message ++ str "\"")
  let builder := appendResult builder resultJson
  builderAppend builder (str "\x7d")

def IdToken (request : Request) (value : Bytes) : Prop :=
  if request.requestIdIsNumber then NumberToken value ∧ value = request.requestId.text
  else StringToken value request.requestId.text

/-- The line is one object without a raw newline, and its member for the id gives the id of the request. -/
structure Framed (request : Request) (line : Bytes) : Prop where
  oneLine : byte '\n' ∉ line
  object : ∃ members, ReadsObject line members ∧
    (request.hasRequestId →
      (∃ value, (str "id", value) ∈ members) ∧ ∀ value, (str "id", value) ∈ members → IdToken request value)

def OneLineValue (resultJson : Option Bytes) : Prop :=
  ∀ result, resultJson = some result → result = [] ∨ Json .value result ∧ byte '\n' ∉ result

def PlainId (request : Request) : Prop :=
  request.hasRequestId → request.requestIdIsNumber = false → ∀ c ∈ request.requestId.text, isPlain c

section Members

variable (request : Request) (ok : Bool) (message resultJson : Option Bytes)

def idFields : List (Bytes × Bytes) :=
  if request.hasRequestId then
    if request.requestIdIsNumber then [(str "id", request.requestId.text)]
    else [(str "id", quoted request.requestId.text)]
  else []

def statusFields : List (Bytes × Bytes) :=
  let listed := [(str "status", quoted (statusText ok)), (str "message", quoted (escapedMessage ok message))]
  if (fields listed).length ≤ 2 ^ 31 - 1 then listed else []

def resultFields : List (Bytes × Bytes) :=
  match resultJson with
  | none => []
  | some result =>
    if result = [] then []
    else if (fields [(str "result", result)]).length ≤ 2 ^ 31 - 1 then [(str "result", result)] else []

/-- The members of the response behind its type. -/
def laterFields : List (Bytes × Bytes) := statusFields ok message ++ resultFields resultJson

theorem fields_append (first second : List (Bytes × Bytes)) :
    fields (first ++ second) = fields first ++ fields second :=
  flatMap_append

theorem builderAppend_short {text : Bytes} (builder : Bytes) (short : text.length ≤ 2 ^ 31 - 1) :
    builderAppend builder text = builder ++ text := if_pos short

theorem appendId_eq (builder : Bytes) : appendId builder (some request) = builder ++ fields (idFields request) := by
  have short := request.requestId.fits
  rw [appendId, idFields]
  split_ifs with has number
  · rw [builderAppend_short]
    · simp only [fields, flatMap_cons, flatMap_nil, append_nil]
      rfl
    · rw [length_append]
      change 6 + _ ≤ _
      omega
  · rw [builderAppend_short]
    · simp only [fields, flatMap_cons, flatMap_nil, append_nil]
      rfl
    · rw [length_append, length_append]
      change 7 + _ + 1 ≤ _
      omega
  · simp [fields]

theorem builderAppend_fields (builder : Bytes) (listed : List (Bytes × Bytes)) :
    builderAppend builder (fields listed) =
      builder ++ fields (if (fields listed).length ≤ 2 ^ 31 - 1 then listed else []) := by
  rw [builderAppend]
  split_ifs
  · rfl
  · simp [fields]

theorem appendResult_eq (builder : Bytes) :
    appendResult builder resultJson = builder ++ fields (resultFields resultJson) := by
  cases resultJson with
  | none => simp [appendResult, resultFields, fields]
  | some result =>
    have shape : str ",\"result\":" ++ result = fields [(str "result", result)] := by
      simp only [fields, flatMap_cons, flatMap_nil, append_nil]
      rfl
    rw [appendResult, resultFields]
    by_cases empty : result = []
    · rw [if_pos empty, if_pos empty]
      simp [fields]
    · rw [if_neg empty, if_neg empty, shape, builderAppend_fields]

theorem responseLine_eq : responseLine (some request) ok message resultJson =
    byte '\x7b' :: (field (str "type") (quoted (str "response")) ++
      fields (idFields request ++ laterFields ok message resultJson) ++ [byte '\x7d']) := by
  have start : builderAppend [] (str "\x7b\"type\":\"response\"") =
      byte '\x7b' :: field (str "type") (quoted (str "response")) := by rfl
  have close (builder : Bytes) : builderAppend builder (str "\x7d") = builder ++ [byte '\x7d'] := by rfl
  have status : str ",\"status\":\"" ++ statusText ok ++ str "\",\"message\":\"" ++ escapedMessage ok message ++
      str "\"" =
        fields [(str "status", quoted (statusText ok)), (str "message", quoted (escapedMessage ok message))] := by
    simp only [fields, flatMap_cons, flatMap_nil, append_nil]
    cases ok <;> rfl
  rw [responseLine, start, appendId_eq, status, builderAppend_fields, appendResult_eq, close, laterFields, statusFields,
    fields_append, fields_append]
  simp only [cons_append, append_assoc]

end Members

/-- A member that the response may hold. -/
structure LineField (member : Bytes × Bytes) : Prop where
  named : ∀ c ∈ member.1, isPlain c
  json : Json .value member.2
  oneLine : byte '\n' ∉ member.2

section Sufficiency

variable {request : Request} {line name : Bytes} {listed : List (Bytes × Bytes)}

theorem plain_oneLine {text : Bytes} (plain : ∀ c ∈ text, isPlain c) : byte '\n' ∉ text := by
  intro member
  exact absurd (plain _ member) (by decide)

/-- The names of the members, and the texts that are not of the request. -/
def labels : List Bytes :=
  [str "type", str "response", str "id", str "status", str "message", str "result", str "ok", str "error"]

def plainLabels : { texts : List Bytes // ∀ text ∈ texts, ∀ c ∈ text, isPlain c } := ⟨labels, by decide +kernel⟩

theorem labels_plain : ∀ label ∈ labels, ∀ c ∈ label, isPlain c := plainLabels.2

theorem id_other : ∀ name ∈ [str "type", str "status", str "message", str "result"], str "id" ≠ name := by
    decide +kernel

variable {resultJson : Option Bytes} (ok : Bool)

theorem statusText_label : statusText ok ∈ labels := by
  cases ok <;> simp [statusText, labels]

theorem escapeString_oneLine (text : Bytes) : byte '\n' ∉ escapeString text := by
  intro member
  exact absurd ((escapeString_clean text).2 _ member) (by decide)

theorem lineField_string {body out : Bytes} (named : ∀ c ∈ name, isPlain c) (reads : Reads body out)
    (oneLine : byte '\n' ∉ body) : LineField (name, quoted body) where
  named := named
  json := .string (stringToken_quoted reads)
  oneLine := by
    have other : byte '\n' ≠ quote := by decide
    simp [quoted, other, oneLine]

theorem fields_oneLine (all : ∀ member ∈ listed, LineField member) : byte '\n' ∉ fields listed := by
  intro member
  obtain ⟨pair, listed, inside⟩ := mem_flatMap.mp member
  have other : byte '\n' ≠ quote ∧ byte '\n' ≠ byte ':' ∧ byte '\n' ≠ byte ',' := by decide
  have name := plain_oneLine (all pair listed).named
  have value := (all pair listed).oneLine
  simp [field, other, name, value] at inside

theorem requestIdFields_number (number : (requestIdFields line).2.1) :
    ∃ n, (requestIdFields line).1.text = (decimal n).take 63 := by
  rw [requestIdFields] at number ⊢
  split_ifs at number ⊢
  cases found : extractUint line (quoted (str "id")) with
  | none =>
    rw [found] at number
    cases number
  | some n => exact ⟨n, rfl⟩

/-- A numeric id is what `%lu` has printed. -/
theorem parseRequest_number (parsed : parseRequest line = .ok request) (number : request.requestIdIsNumber) :
    ∃ n, request.requestId.text = (decimal n).take 63 := by
  rw [parseRequest] at parsed
  cases typed : requestType line with
  | none =>
    rw [typed] at parsed
    cases parsed
  | some =>
    rw [typed] at parsed
    obtain rfl := Except.ok.inj parsed
    exact requestIdFields_number number

theorem idFields_line (parsed : parseRequest line = .ok request) (plain : PlainId request) :
    ∀ member ∈ idFields request, LineField member := by
  rw [idFields]
  split_ifs with has number
  · intro member listed
    obtain rfl := mem_singleton.mp listed
    obtain ⟨n, printed⟩ := parseRequest_number parsed number
    refine ⟨labels_plain _ (by simp [labels]), .number ?_, ?_⟩
    · rw [printed]
      exact numberToken_decimal n (by decide)
    · rw [printed]
      intro newline
      exact absurd (decimal_isDigit n _ (mem_of_mem_take newline)) (by decide)
  · intro member listed
    obtain rfl := mem_singleton.mp listed
    have ofId := plain has (Bool.eq_false_iff.mpr number)
    exact lineField_string (labels_plain _ (by simp [labels])) (reads_plain ofId) (plain_oneLine ofId)
  · exact forall_mem_nil _

theorem laterFields_line (message : Option Bytes) (value : OneLineValue resultJson) :
    ∀ member ∈ laterFields ok message resultJson, LineField member := by
  have status : ∀ member ∈ statusFields ok message, LineField member := by
    rw [statusFields]
    split_ifs
    · rw [forall_mem_cons, forall_mem_singleton]
      have plain := labels_plain _ (statusText_label ok)
      exact ⟨lineField_string (labels_plain _ (by simp [labels])) (reads_plain plain) (plain_oneLine plain),
        lineField_string (labels_plain _ (by simp [labels])) (reads_escapeString _) (escapeString_oneLine _)⟩
    · exact forall_mem_nil _
  have result : ∀ member ∈ resultFields resultJson, LineField member := by
    cases resultJson with
    | none => exact forall_mem_nil _
    | some result =>
      rw [resultFields]
      split_ifs with empty
      · exact forall_mem_nil _
      · rw [forall_mem_singleton]
        rcases value result rfl with absent | ⟨json, oneLine⟩
        · exact absurd absent empty
        · exact ⟨labels_plain _ (by simp [labels]), json, oneLine⟩
      · exact forall_mem_nil _
  exact forall_mem_append.mpr ⟨status, result⟩

/-- Only the first of the members behind the type is called an id. -/
theorem laterFields_name (message resultJson : Option Bytes) (value : Bytes) :
    (str "id", value) ∉ laterFields ok message resultJson := by
  intro listed
  have names : ∀ member ∈ laterFields ok message resultJson,
      member.1 = str "status" ∨ member.1 = str "message" ∨ member.1 = str "result" := by
    intro member listed
    rcases mem_append.mp listed with status | result
    · rw [statusFields] at status
      split_ifs at status
      · simp only [mem_cons, not_mem_nil, or_false] at status
        rcases status with rfl | rfl
        · exact .inl rfl
        · exact .inr (.inl rfl)
      · cases status
    · cases resultJson with
      | none => cases result
      | some =>
        rw [resultFields] at result
        split_ifs at result
        · cases result
        · obtain rfl := mem_singleton.mp result
          exact .inr (.inr rfl)
        · cases result
  rcases names _ listed with status | message | result
  · exact id_other _ (by simp) status
  · exact id_other _ (by simp) message
  · exact id_other _ (by simp) result

theorem idFields_token (parsed : parseRequest line = .ok request) (plain : PlainId request)
    (has : request.hasRequestId) : ∃ value, idFields request = [(str "id", value)] ∧ IdToken request value := by
  rw [idFields, if_pos has]
  by_cases number : request.requestIdIsNumber
  · obtain ⟨n, printed⟩ := parseRequest_number parsed number
    refine ⟨_, if_pos number, ?_⟩
    rw [IdToken, if_pos number, printed]
    exact ⟨numberToken_decimal n (by decide), rfl⟩
  · refine ⟨_, if_neg number, ?_⟩
    rw [IdToken, if_neg number]
    exact stringToken_quoted (reads_plain (plain has (Bool.eq_false_iff.mpr number)))

theorem framed_of_plainId (parsed : parseRequest line = .ok request) (ok : Bool) (message : Option Bytes)
    (value : OneLineValue resultJson) (plain : PlainId request) :
    Framed request (responseLine (some request) ok message resultJson) := by
  have all := forall_mem_append.mpr ⟨idFields_line parsed plain, laterFields_line ok message value⟩
  have response := labels_plain (str "response") (by simp [labels])
  have type : LineField (str "type", quoted (str "response")) :=
    lineField_string (labels_plain _ (by simp [labels])) (reads_plain response) (plain_oneLine response)
  rw [responseLine_eq]
  constructor
  · have first : byte '\n' ∉ field (str "type") (quoted (str "response")) := by
      have alone := fields_oneLine (forall_mem_singleton.mpr type)
      exact fun inside => alone (mem_cons_of_mem _ inside)
    have later := fields_oneLine all
    have other : byte '\n' ≠ byte '\x7b' ∧ byte '\n' ≠ byte '\x7d' := by decide
    simp [first, later, other]
  · refine ⟨_, ⟨_, rfl, members_fields (reads_plain type.named) type.json fun member listed =>
      ⟨reads_plain (all member listed).named, (all member listed).json⟩⟩, fun has => ?_⟩
    have only (value : Bytes) (listed : (str "id", value) ∈ (str "type", quoted (str "response")) ::
        (idFields request ++ laterFields ok message resultJson)) : (str "id", value) ∈ idFields request := by
      rcases mem_cons.mp listed with first | later
      · exact absurd (congrArg Prod.fst first) (id_other _ (by simp))
      · rcases mem_append.mp later with id | rest
        · exact id
        · exact absurd rest (laterFields_name ok message resultJson value)
    obtain ⟨value, listed, isId⟩ := idFields_token parsed plain has
    rw [listed] at only ⊢
    refine ⟨⟨value, mem_cons_of_mem _ mem_cons_self⟩, fun other member => ?_⟩
    obtain ⟨-, rfl⟩ := Prod.mk.inj (mem_singleton.mp (only other member))
    exact isId

end Sufficiency

section Necessity

variable {request : Request} {members : List (Bytes × Bytes)}

/-- A string that is read into the later members ends at the next quote. -/
theorem fields_decode (listed : List (Bytes × Bytes)) (out more : Bytes)
    (found : decode (fields listed) = some (out, more)) : out = [byte ','] := by
  cases listed with
  | nil => cases found
  | cons =>
    exact (Prod.mk.inj (Option.some.inj found)).1.symm

theorem members_next {name text behind : Bytes} (plain : Reads name name) (reads : Reads text text)
    (listed : Members members (field name (quoted text) ++ byte ',' :: behind)) :
    ∃ value rest, members = (name, value) :: rest ∧ Members rest behind := by
  have shape : field name (quoted text) ++ byte ',' :: behind =
      quote :: (name ++ quote :: byte ':' :: (quote :: (text ++ quote :: byte ',' :: behind))) := by
    simp [field, quoted]
  rw [shape] at listed
  obtain ⟨value, trail, later, rest, rfl, json, blank, same, final⟩ := members_first plain (by decide) listed
  obtain ⟨out, -, decoded⟩ := string_value json same
  rw [reads] at decoded
  have behindEq := (Prod.mk.inj (Option.some.inj decoded)).2
  obtain rfl := blank_nil blank behindEq.symm (by decide)
  rcases final with ⟨-, rfl⟩ | ⟨text, rfl, listed⟩
  · cases behindEq
  · obtain rfl := (cons.inj behindEq).2
    exact ⟨value, rest, rfl, listed⟩

theorem plainId_of_framed {ok : Bool} {message resultJson : Option Bytes}
    (framed : Framed request (responseLine (some request) ok message resultJson)) : PlainId request := by
  intro has string
  have number : ¬ request.requestIdIsNumber = true := Bool.eq_false_iff.mp string
  obtain ⟨members, ⟨body, split, listed⟩, carries⟩ := framed.object
  have fieldsEq : fields (idFields request ++ laterFields ok message resultJson) =
      byte ',' :: (field (str "id") (quoted request.requestId.text) ++ fields (laterFields ok message resultJson)) := by
    rw [idFields, if_pos has, if_neg number]
    simp [fields]
  rw [responseLine_eq, fieldsEq] at split
  obtain rfl := append_cancel_right (cons.inj split).2
  obtain ⟨typeValue, rest, rfl, later⟩ :=
    members_next (reads_plain (labels_plain _ (by simp [labels]))) (reads_plain (labels_plain _ (by simp [labels])))
      listed
  have shape : field (str "id") (quoted request.requestId.text) ++ fields (laterFields ok message resultJson) =
      quote :: (str "id" ++ quote :: byte ':' ::
        (quote :: (request.requestId.text ++ quote :: fields (laterFields ok message resultJson)))) := by
    simp [field, quoted]
  rw [shape] at later
  have named : Reads (str "id") (str "id") := reads_plain (labels_plain _ (by simp [labels]))
  have dense : isBlank quote = false := by decide
  obtain ⟨value, trail, final, rest, rfl, json, -, same, -⟩ := members_first named dense later
  obtain ⟨out, token, decoded⟩ := string_value json same
  have isId := (carries has).2 value (mem_cons_of_mem _ mem_cons_self)
  rw [IdToken, if_neg number] at isId
  obtain rfl := stringToken_unique token isId
  exact plain_of_decode_self (fields_decode _) (by decide) decoded

end Necessity

/-- A response to a parsed request is one object on one line that carries the id of the request exactly when the id is
absent, numeric or plain. -/
theorem responseLine_framed_iff {line : Bytes} {request : Request} (parsed : parseRequest line = .ok request)
    (ok : Bool) (message : Option Bytes) {resultJson : Option Bytes} (value : OneLineValue resultJson) :
    Framed request (responseLine (some request) ok message resultJson) ↔ PlainId request :=
  ⟨plainId_of_framed, framed_of_plainId parsed ok message value⟩

theorem responseLine_framed_numeric :
    ∃ request, parseRequest (str "\x7b\"type\":\"chat\",\"id\":7\x7d") = .ok request ∧
      (Framed request (responseLine (some request) true none (some (str "null"))) ↔ PlainId request) ∧
      request.hasRequestId ∧ PlainId request := by
  have evaluated : (parseRequest (str "\x7b\"type\":\"chat\",\"id\":7\x7d")).toOption.map
      (fun request => (request.hasRequestId, request.requestIdIsNumber)) = some (true, true) := by decide +kernel
  cases parsed : parseRequest (str "\x7b\"type\":\"chat\",\"id\":7\x7d") with
  | error =>
    rw [parsed] at evaluated
    cases evaluated
  | ok request =>
    rw [parsed] at evaluated
    obtain ⟨has, number⟩ := Prod.mk.inj (Option.some.inj evaluated)
    have value : OneLineValue (some (str "null")) := by
      intro result same
      cases same
      exact .inr ⟨.literal (.inl rfl), by decide⟩
    refine ⟨request, rfl, responseLine_framed_iff parsed true none value, has, fun _ string => ?_⟩
    rw [number] at string
    cases string

/-- An id with a quote ends the string of the response too early. -/
theorem responseLine_quoted_id :
    ∃ request, parseRequest (str "\x7b\"type\":\"chat\",\"id\":\"a\\\"b\"\x7d") = .ok request ∧
      request.requestId.text = str "a\"b" ∧ ¬ Framed request (responseLine (some request) true none none) := by
  have evaluated : (parseRequest (str "\x7b\"type\":\"chat\",\"id\":\"a\\\"b\"\x7d")).toOption.map
      (fun request => (request.hasRequestId, request.requestIdIsNumber, request.requestId.text)) =
        some (true, false, str "a\"b") := by decide +kernel
  cases parsed : parseRequest (str "\x7b\"type\":\"chat\",\"id\":\"a\\\"b\"\x7d") with
  | error =>
    rw [parsed] at evaluated
    cases evaluated
  | ok request =>
    rw [parsed] at evaluated
    obtain ⟨has, rest⟩ := Prod.mk.inj (Option.some.inj evaluated)
    obtain ⟨string, text⟩ := Prod.mk.inj rest
    refine ⟨request, rfl, text, fun framed => ?_⟩
    have plain := plainId_of_framed framed has string quote (by rw [text]; decide)
    exact absurd plain (by decide)

end SshChatter.JsonApi
