import ServiceEngine.Json.Token

/-!
# JSON documents

A document is the tree that a JSON text spells, before it is asked to be a value: the members of an
object stand in the order of the text, names may repeat, and a number or string may stand for
nothing. A document becomes a value when all its numbers and strings stand for something; the last
member of a name then wins.

Keeping the two apart lets a reader of definitions skip what it does not know without asking it to
be a value, and lets it refuse a name that is written twice.

Main statement: `canonical_of_toJson?`, values of documents are canonical.
-/

namespace ServiceEngine.Json

/-- The tree that a JSON text spells. -/
inductive Document where
  | null
  | bool (b : Bool)
  | number (n : Option Number)
  | string (s : Option String)
  | array (items : List Document)
  | object (members : List (Option String × Document))
  deriving Inhabited

namespace Document

/-! ## From tokens to documents -/

/-- A container that is still open, with what it holds so far, last first. -/
inductive Open where
  | array (held : List Document)
  | object (held : List (Option String × Document))
  | member (held : List (Option String × Document)) (name : Option String)

/-- What may come next. -/
inductive Expect where
  /-- A value. -/
  | value
  /-- A value, or the end of the array. -/
  | firstItem
  /-- A name. -/
  | name
  /-- A name, or the end of the object. -/
  | firstName
  /-- The colon behind a name. -/
  | colon
  /-- A comma, or the end of the innermost container. -/
  | separator
  deriving DecidableEq

/-- A text that is partly read, or read to its end. -/
inductive Progress where
  | reading (stack : List Open) (expect : Expect)
  | done (document : Document)

/-- Put a finished document where it belongs. -/
def Progress.put (document : Document) : List Open → Option Progress
  | [] => some (.done document)
  | .array held :: stack => some (.reading (.array (document :: held) :: stack) .separator)
  | .member held name :: stack =>
    some (.reading (.object ((name, document) :: held) :: stack) .separator)
  | .object _ :: _ => none

/-- Close the innermost container with an array's bracket. -/
def Progress.closeArray : List Open → Option Progress
  | .array held :: stack => Progress.put (.array held.reverse) stack
  | _ => none

/-- Close the innermost container with an object's bracket. -/
def Progress.closeObject : List Open → Option Progress
  | .object held :: stack => Progress.put (.object held.reverse) stack
  | _ => none

/-- The beginning or the whole of a value. -/
def Progress.value (stack : List Open) : Token → Option Progress
  | .openArray => some (.reading (.array [] :: stack) .firstItem)
  | .openObject => some (.reading (.object [] :: stack) .firstName)
  | .null => Progress.put .null stack
  | .bool b => Progress.put (.bool b) stack
  | .number n => Progress.put (.number n) stack
  | .string s => Progress.put (.string s) stack
  | _ => none

/-- A name of an object. -/
def Progress.name : List Open → Token → Option Progress
  | .object held :: stack, .string name => some (.reading (.member held name :: stack) .colon)
  | _, _ => none

/-- What follows a comma. -/
def Progress.comma (stack : List Open) : Option Progress :=
  match stack with
  | .array _ :: _ => some (.reading stack .value)
  | .object _ :: _ => some (.reading stack .name)
  | _ => none

/-- Take one more token. -/
def Progress.step : Progress → Token → Option Progress
  | .reading stack .value, token => Progress.value stack token
  | .reading stack .firstItem, .closeArray => Progress.closeArray stack
  | .reading stack .firstItem, token => Progress.value stack token
  | .reading stack .firstName, .closeObject => Progress.closeObject stack
  | .reading stack .firstName, token => Progress.name stack token
  | .reading stack .name, token => Progress.name stack token
  | .reading stack .colon, .colon => some (.reading stack .value)
  | .reading stack .separator, .comma => Progress.comma stack
  | .reading stack .separator, .closeArray => Progress.closeArray stack
  | .reading stack .separator, .closeObject => Progress.closeObject stack
  | _, _ => none

/-- The document that a list of tokens spells. -/
def ofTokens? (tokens : List Token) : Option Document :=
  match tokens.foldlM Progress.step (.reading [] .value) with
  | some (.done document) => some document
  | _ => none

/-- The document that a text spells. -/
def ofText? (text : String) : Option Document := (Token.ofText? text).bind ofTokens?

/-! ## Documents and values -/

/-- The greatest number of nested containers in a text. -/
def nestingLimit : Nat := 127

mutual

/-- Whether at most `room` containers are nested in each other. -/
def fits : Nat → Document → Bool
  | 0, .array _ => false
  | 0, .object _ => false
  | room + 1, .array items => fitsItems room items
  | room + 1, .object members => fitsMembers room members
  | _, .null => true
  | _, .bool _ => true
  | _, .number _ => true
  | _, .string _ => true

def fitsItems (room : Nat) : List Document → Bool
  | [] => true
  | item :: rest => fits room item && fitsItems room rest

def fitsMembers (room : Nat) : List (Option String × Document) → Bool
  | [] => true
  | (_, value) :: rest => fits room value && fitsMembers room rest

end

mutual

/-- The value that a document stands for. -/
def toJson? : Document → Option Json
  | .null => some .null
  | .bool b => some (.bool b)
  | .number n => n.map Json.number
  | .string s => s.map Json.string
  | .array items => (toItems? items).map Json.array
  | .object members => (toMembers? [] members).map Json.object

def toItems? : List Document → Option (List Json)
  | [] => some []
  | item :: rest =>
    match item.toJson?, toItems? rest with
    | some item, some rest => some (item :: rest)
    | _, _ => none

/-- The members that named documents stand for, written over `before`. -/
def toMembers? (before : Fields Json) : List (Option String × Document) → Option (Fields Json)
  | [] => some before
  | (name, value) :: rest =>
    match name, value.toJson? with
    | some name, some value => toMembers? (before.insert name value) rest
    | _, _ => none

end

mutual

def ofJson : Json → Document
  | .null => .null
  | .bool b => .bool b
  | .number n => .number (some n)
  | .string s => .string (some s)
  | .array items => .array (ofItems items)
  | .object members => .object (ofMembers members)

def ofItems : List Json → List Document
  | [] => []
  | item :: rest => ofJson item :: ofItems rest

def ofMembers : List (String × Json) → List (Option String × Document)
  | [] => []
  | (name, value) :: rest => (some name, ofJson value) :: ofMembers rest

end

mutual

theorem canonical_of_toJson? : ∀ {d : Document} {j : Json}, d.toJson? = some j → j.Canonical
  | .null, _, h => by cases h; trivial
  | .bool _, _, h => by cases h; trivial
  | .number n, _, h => by
    cases n <;> simp only [toJson?, Option.map_none, Option.map_some, reduceCtorEq,
      Option.some.injEq] at h
    subst h
    trivial
  | .string s, _, h => by
    cases s <;> simp only [toJson?, Option.map_none, Option.map_some, reduceCtorEq,
      Option.some.injEq] at h
    subst h
    trivial
  | .array items, j, h => by
    simp only [toJson?, Option.map_eq_some_iff] at h
    obtain ⟨values, hvalues, rfl⟩ := h
    exact canonicalItems_of_toItems? hvalues
  | .object members, j, h => by
    simp only [toJson?, Option.map_eq_some_iff] at h
    obtain ⟨values, hvalues, rfl⟩ := h
    exact canonicalMembers_of_toMembers? List.Pairwise.nil trivial hvalues

theorem canonicalItems_of_toItems? :
    ∀ {ds : List Document} {js : List Json}, toItems? ds = some js → CanonicalItems js
  | [], _, h => by cases h; trivial
  | d :: ds, js, h => by
    simp only [toItems?] at h
    split at h
    case h_1 item rest hitem hrest =>
      cases h
      exact ⟨canonical_of_toJson? hitem, canonicalItems_of_toItems? hrest⟩
    case h_2 => cases h

theorem canonicalMembers_of_toMembers? :
    ∀ {ds : List (Option String × Document)} {before after : Fields Json},
      before.Sorted → CanonicalMembers before → toMembers? before ds = some after →
        Fields.Sorted after ∧ CanonicalMembers after
  | [], _, _, hsorted, hcanonical, h => by cases h; exact ⟨hsorted, hcanonical⟩
  | (name, value) :: ds, before, after, hsorted, hcanonical, h => by
    simp only [toMembers?] at h
    split at h
    case h_1 name' value' hvalue =>
      exact canonicalMembers_of_toMembers? (Fields.sorted_insert hsorted name' value')
        (canonicalMembers_insert hcanonical (canonical_of_toJson? hvalue)) h
    case h_2 => cases h

end

end Document

/-! ## Reading values -/

/-- The value that a text spells. -/
def ofText? (text : String) : Option Json := do
  let document ← Document.ofText? text
  if document.fits Document.nestingLimit then document.toJson? else none

/-- A canonical value. -/
structure Datum where
  json : Json
  canonical : json.Canonical

instance : BEq Datum := ⟨fun a b => a.json == b.json⟩

/-- The value that a document stands for. -/
def Datum.ofDocument? (d : Document) : Option Datum :=
  match h : d.toJson? with
  | some j => some ⟨j, Document.canonical_of_toJson? h⟩
  | none => none

end ServiceEngine.Json
