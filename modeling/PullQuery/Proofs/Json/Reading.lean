import PullQuery.Proofs.Data.Dictionary
import PullQuery.Proofs.Json.Tokens

/-! A value is read back from its text, on one line or over several. The text of a value becomes its
draft wherever a value may stand, and the draft becomes the value again if the names of members are
in order and nothing is nested too deep. -/
namespace PullQuery.Json

open PullQuery.Data
open PullQuery.Number
open PullQuery.Text (StopsRun)

namespace Draft

def readText (s : State) (cs : List Char) : Draft × Bool :=
  readFrom (streamFrom 0 cs).whole s (streamFrom 0 cs).tokens

theorem readText_token {cs rest : List Char} {token : Token} {s next : State}
    (stream : streamFrom 0 cs = (streamFrom 0 rest).after token)
    (step : s.step? token = some next) : readText s cs = readText next rest := by
  rw [readText, stream]
  simp only [TokenStream.after, readFrom, step]
  rfl

theorem readText_symbol {c : Char} {token : Token} {s next : State} (known : ([c], token) ∈ symbols)
    (step : s.step? token = some next) (rest : List Char) :
    readText s (c :: rest) = readText next rest :=
  readText_token (streamFrom_symbol known rest) step

theorem readText_blanks {blanks : List Char} (blank : ∀ c ∈ blanks, isBlank c = true) (s : State)
    (rest : List Char) : readText s (blanks ++ rest) = readText s rest := by
  induction blanks with
  | nil => rfl
  | cons c blanks ih =>
    rw [List.cons_append, readText, streamFrom_blank (blank c (.head _))]
    exact ih fun d member => blank d (.tail _ member)

/-- Wherever a value may stand, the text is read as the draft. -/
def Reads (text : List Char) (draft : Draft) : Prop :=
  ∀ s rest, s.expecting = .value ∨ s.expecting = .itemOrEnd → StopsRun isNumberPart rest →
    readText s (text ++ rest) = readText (.put s.frames draft) rest

theorem step?_of_begin? {s next : State} {token : Token}
    (awaits : s.expecting = .value ∨ s.expecting = .itemOrEnd)
    (begins : State.begin? s.frames token = some next) : s.step? token = some next := by
  obtain ⟨frames, expecting, result⟩ := s
  rcases awaits with rfl | rfl
  · exact begins
  · -- A list may end here, but what begins a value does not end one.
    have stays : State.close? frames token = none := by
      cases token <;> simp [State.begin?] at begins <;> rfl
    simp only [State.step?, stays]
    exact begins

theorem reads_of_token {text : List Char} {token : Token} {draft : Draft}
    (stream : ∀ rest, StopsRun isNumberPart rest →
      streamFrom 0 (text ++ rest) = (streamFrom 0 rest).after token)
    (begins : ∀ frames, State.begin? frames token = some (.put frames draft)) :
    Reads text draft := by
  intro s rest awaits ends
  exact readText_token (stream rest ends) (step?_of_begin? awaits (begins s.frames))

private theorem reads_word {spelling : List Char} {token : Token} {draft : Draft}
    (known : (spelling, token) ∈ symbols)
    (begins : ∀ frames, State.begin? frames token = some (.put frames draft)) :
    Reads spelling draft :=
  reads_of_token (fun rest _ => streamFrom_symbol known rest) begins

/-- What lists and objects have in common: brackets, the frame that stands open between them with
the parts so far, what may come next there, and the draft that they become. -/
structure Brackets (α : Type) where
  opening : Char
  closing : Char
  openToken : Token
  closeToken : Token
  frame : List α → Frame
  partOrEnd : Expecting
  part : Expecting
  whole : List α → Draft
  opens : ([opening], openToken) ∈ symbols
  closes : ([closing], closeToken) ∈ symbols
  plain : isNumberPart closing = false
  begins : ∀ outer, State.begin? outer openToken = some ⟨frame [] :: outer, partOrEnd, missing⟩
  continues : ∀ parts outer,
    State.step? ⟨frame parts :: outer, .commaOrEnd, missing⟩ .comma =
      some ⟨frame parts :: outer, part, missing⟩
  ends : ∀ parts outer expecting, expecting = partOrEnd ∨ expecting = .commaOrEnd →
    State.step? ⟨frame parts :: outer, expecting, missing⟩ closeToken =
      some (.put outer (whole parts.reverse))

private def listBrackets : Brackets Draft where
  opening := '['
  closing := ']'
  openToken := .openList
  closeToken := .closeList
  frame := .list
  partOrEnd := .itemOrEnd
  part := .value
  whole items := list items true
  opens := by simp [symbols]
  closes := by simp [symbols]
  plain := rfl
  begins _ := rfl
  continues _ _ := rfl
  ends := by rintro _ _ _ (rfl | rfl) <;> rfl

def objectBrackets : Brackets (Option String × Draft) where
  opening := '\x7b'
  closing := '\x7d'
  openToken := .openObject
  closeToken := .closeObject
  frame members := .object members none
  partOrEnd := .nameOrEnd
  part := .name
  whole members := object members true
  opens := by simp [symbols]
  closes := by simp [symbols]
  plain := rfl
  begins _ := rfl
  continues _ _ := rfl
  ends := by rintro _ _ _ (rfl | rfl) <;> rfl

section Brackets
variable {α : Type} {b : Brackets α}

private theorem Brackets.stops (b : Brackets α) {rest : List Char} :
    StopsRun isNumberPart (b.closing :: rest) := by
  rintro c ⟨⟩
  exact b.plain

def Brackets.ReadsPart (b : Brackets α) (text : List Char) (part : α) : Prop :=
  ∀ before outer expecting rest, expecting = b.part ∨ expecting = b.partOrEnd →
    StopsRun isNumberPart rest →
    readText ⟨b.frame before :: outer, expecting, missing⟩ (text ++ rest) =
      readText ⟨b.frame (part :: before) :: outer, .commaOrEnd, missing⟩ rest

private theorem readText_separated {texts : List (List Char)} {parts : List α} {indent : List Char}
    (reads : List.Forall₂ b.ReadsPart texts parts) (some : texts ≠ [])
    (blank : ∀ c ∈ indent, isBlank c = true) (before : List α) (outer : List Frame)
    {expecting : Expecting} (awaits : expecting = b.part ∨ expecting = b.partOrEnd)
    {rest : List Char} (stops : StopsRun isNumberPart rest) :
    readText ⟨b.frame before :: outer, expecting, missing⟩
        (separated (',' :: indent) texts ++ rest) =
      readText ⟨b.frame (parts.reverse ++ before) :: outer, .commaOrEnd, missing⟩ rest := by
  -- Along the parts: behind the first one stands nothing, or a comma and the others.
  induction reads generalizing before expecting with
  | nil => exact absurd rfl some
  | @cons text part texts parts first others ih =>
    cases others with
    | nil => exact first before outer expecting rest awaits stops
    | @cons other _ texts _ second behind =>
      have cut : separated (',' :: indent) (text :: other :: texts) =
          text ++ ',' :: indent ++ separated (',' :: indent) (other :: texts) := rfl
      have comma : ([','], Token.comma) ∈ symbols := by simp [symbols]
      have step := b.continues (part :: before) outer
      rw [cut, List.append_assoc, List.append_assoc, List.cons_append]
      rw [first before outer expecting _ awaits (by rintro c ⟨⟩; rfl), readText_symbol comma step]
      rw [readText_blanks blank, ih (by simp) (part :: before) (.inl rfl)]
      simp

theorem reads_bracketed {texts : List (List Char)} {parts : List α} {indent outdent : List Char}
    (reads : List.Forall₂ b.ReadsPart texts parts) (blank : ∀ c ∈ indent, isBlank c = true)
    (white : ∀ c ∈ outdent, isBlank c = true) :
    Reads (b.opening :: indent ++ separated (',' :: indent) texts ++ outdent ++ [b.closing])
      (b.whole parts) := by
  intro s rest awaits _
  have closed (expecting : Expecting) (may : expecting = b.partOrEnd ∨ expecting = .commaOrEnd) :
      readText ⟨b.frame parts.reverse :: s.frames, expecting, missing⟩
        (outdent ++ b.closing :: rest) = readText (.put s.frames (b.whole parts)) rest := by
    have step := b.ends parts.reverse s.frames expecting may
    rw [List.reverse_reverse] at step
    rw [readText_blanks white, readText_symbol b.closes step]
  have inside : readText ⟨b.frame [] :: s.frames, b.partOrEnd, missing⟩
      (separated (',' :: indent) texts ++ (outdent ++ b.closing :: rest)) =
        readText (.put s.frames (b.whole parts)) rest := by
    cases reads with
    | nil => exact closed b.partOrEnd (.inl rfl)
    | cons first others =>
      rw [readText_separated (.cons first others) (by simp) blank [] s.frames (.inr rfl)
        (stops_blanks white b.stops), List.append_nil]
      exact closed .commaOrEnd (.inr rfl)
  have opened := step?_of_begin? awaits (b.begins s.frames)
  simp only [List.cons_append, List.append_assoc, List.nil_append]
  rw [readText_symbol b.opens opened, readText_blanks blank, inside]

theorem reads_compact {texts : List (List Char)} {parts : List α}
    (reads : List.Forall₂ b.ReadsPart texts parts) :
    Reads (b.opening :: separated [','] texts ++ [b.closing]) (b.whole parts) := by
  have inside := @reads_bracketed _ b texts parts [] [] reads (by simp) (by simp)
  simpa using inside

theorem reads_pretty {texts : List (List Char)} {parts : List α}
    (reads : List.Forall₂ b.ReadsPart texts parts) (level : Nat) :
    Reads (bracketed b.opening b.closing level texts) (b.whole parts) := by
  have blank (level : Nat) : ∀ c ∈ lineBreak level, isBlank c = true := by
    intro c member
    rcases List.mem_cons.mp member with rfl | space
    · rfl
    · obtain rfl := (List.mem_replicate.mp space).2
      rfl
  unfold bracketed
  split
  · rename_i empty
    obtain rfl := List.isEmpty_iff.mp empty
    simpa [separated] using reads_compact reads
  · exact reads_bracketed reads (blank _) (blank _)

end Brackets

theorem readsPart_member {text gap : List Char} {draft : Draft} (name : String)
    (reads : Reads text draft) (blank : ∀ c ∈ gap, isBlank c = true) :
    objectBrackets.ReadsPart (quoted name ++ ':' :: gap ++ text) (some name, draft) := by
  intro before outer expecting rest awaits stops
  have colon : ([':'], Token.colon) ∈ symbols := by simp [symbols]
  have named : State.step? ⟨objectBrackets.frame before :: outer, expecting, missing⟩ (.text (some name)) =
      some ⟨.object before (some name) :: outer, .colon, missing⟩ := by
    rcases awaits with rfl | rfl <;> rfl
  have step : State.step? ⟨.object before (some name) :: outer, .colon, missing⟩ .colon =
      some ⟨.object before (some name) :: outer, .value, missing⟩ := rfl
  simp only [List.cons_append, List.append_assoc]
  rw [readText_token (streamFrom_quoted name _) named, readText_symbol colon step]
  rw [readText_blanks blank, reads _ rest (.inl rfl) stops]
  rfl

end Draft

inductive Legible : Json → Prop
  | null : Legible .null
  | boolean (b : Bool) : Legible (.boolean b)
  | integer {n : Int} (low : -0x8000000000000000 ≤ n) (high : n ≤ largestDigits) :
    Legible (.integer n)
  | float {x : Float} (scanned : ∀ rest, StopsRun isNumberPart rest →
    streamFrom 0 ((documentText x).toList ++ rest) =
      (streamFrom 0 rest).after (.number (some (.float x)))) : Legible (.float x)
  | text (s : String) : Legible (.text s)
  | list {items : List Json} (all : ∀ item ∈ items, Legible item) : Legible (.list items)
  | object {members : List (String × Json)} (all : ∀ member ∈ members, Legible member.2) :
    Legible (.object members)

/-- Legible, with the members of every object in order, and not nested too deep even inside `depth`
lists and objects. -/
inductive Regular : (depth : Nat) → Json → Prop
  | null {depth : Nat} : Regular depth .null
  | boolean {depth : Nat} (b : Bool) : Regular depth (.boolean b)
  | integer {depth : Nat} {n : Int} (low : -0x8000000000000000 ≤ n) (high : n ≤ largestDigits) :
    Regular depth (.integer n)
  | float {depth : Nat} {x : Float} (legible : Legible (.float x)) : Regular depth (.float x)
  | text {depth : Nat} (s : String) : Regular depth (.text s)
  | list {depth : Nat} {items : List Json} (shallow : depth + 1 < Draft.depthLimit)
    (all : ∀ item ∈ items, Regular (depth + 1) item) : Regular depth (.list items)
  | object {depth : Nat} {members : List (String × Json)} (shallow : depth + 1 < Draft.depthLimit)
    (ordered : Dictionary.Ordered members) (all : ∀ member ∈ members, Regular (depth + 1) member.2) :
    Regular depth (.object members)

section Maps

private theorem compactItems_eq_map (items : List Json) :
    compactItems items = items.map compact := by
  induction items with
  | nil => rfl
  | cons item rest ih => rw [compactItems, ih, List.map_cons]

private theorem prettyItems_eq_map (level : Nat) (items : List Json) :
    prettyItems level items = items.map (prettyAt level) := by
  induction items with
  | nil => rfl
  | cons item rest ih => rw [prettyItems, ih, List.map_cons]

private theorem compactMembers_eq_map (members : List (String × Json)) :
    compactMembers members =
      members.map fun member => quoted member.1 ++ ':' :: [] ++ compact member.2 := by
  induction members with
  | nil => rfl
  | cons member rest ih =>
    rw [compactMembers, ih, List.map_cons]
    simp

private theorem prettyMembers_eq_map (level : Nat) (members : List (String × Json)) :
    prettyMembers level members =
      members.map fun member => quoted member.1 ++ ':' :: [' '] ++ prettyAt level member.2 := by
  induction members with
  | nil => rfl
  | cons member rest ih =>
    rw [prettyMembers, ih, List.map_cons]
    simp

theorem Draft.ofItems_eq_map (items : List Json) : ofItems items = items.map ofJson := by
  induction items with
  | nil => rfl
  | cons item rest ih => rw [ofItems, ih, List.map_cons]

private theorem Draft.ofMembers_eq_map (members : List (String × Json)) :
    ofMembers members = members.map fun member => (some member.1, ofJson member.2) := by
  induction members with
  | nil => rfl
  | cons member rest ih => rw [ofMembers, ih, List.map_cons]

end Maps

namespace Draft

private theorem items?_ofItems {depth : Nat} {items : List Json}
    (all : ∀ item ∈ items, (ofJson item).json? depth = some item) :
    items? depth (ofItems items) = some items := by
  induction items with
  | nil => rfl
  | cons item rest ih =>
    have behind := ih fun other member => all other (.tail _ member)
    simp [ofItems, items?, all item (.head _), behind]

private theorem members?_ofMembers {depth : Nat} {members : List (String × Json)}
    (all : ∀ member ∈ members, (ofJson member.2).json? depth = some member.2) :
    members? depth (ofMembers members) = some members := by
  induction members with
  | nil => rfl
  | cons first rest ih =>
    have behind := ih fun other member => all other (.tail _ member)
    simp [ofMembers, members?, all first (.head _), behind]

end Draft

namespace Regular
variable {depth : Nat} {json : Json}

theorem legible (regular : Regular depth json) : Legible json := by
  induction regular with
  | null => exact .null
  | boolean b => exact .boolean b
  | integer low high => exact .integer low high
  | float legible => exact legible
  | text s => exact .text s
  | list shallow all ih => exact .list ih
  | object shallow ordered all ih => exact .object ih

private theorem json?_ofJson (regular : Regular depth json) :
    (Draft.ofJson json).json? depth = some json := by
  induction regular with
  | null => rfl
  | boolean b => rfl
  | integer low high => rfl
  | float legible => rfl
  | text s => rfl
  | list shallow all ih =>
    rw [Draft.ofJson, Draft.json?, if_pos ⟨rfl, shallow⟩, Draft.items?_ofItems ih]
    rfl
  | object shallow ordered all ih =>
    rw [Draft.ofJson, Draft.json?, if_pos ⟨rfl, shallow⟩, Draft.members?_ofMembers ih]
    rw [Option.map_some, ordered.ofList_eq]

end Regular

namespace Legible

private theorem readsItems {write : Json → List Char} {items : List Json}
    (all : ∀ item ∈ items, Draft.Reads (write item) (Draft.ofJson item)) :
    List.Forall₂ Draft.listBrackets.ReadsPart (items.map write) (Draft.ofItems items) := by
  rw [Draft.ofItems_eq_map, List.forall₂_map_left_iff, List.forall₂_map_right_iff, List.forall₂_same]
  intro item member before outer expecting rest awaits stops
  exact all item member _ rest awaits stops

private theorem readsMembers {write : Json → List Char} {gap : List Char}
    {members : List (String × Json)}
    (all : ∀ member ∈ members, Draft.Reads (write member.2) (Draft.ofJson member.2))
    (blank : ∀ c ∈ gap, isBlank c = true) :
    List.Forall₂ Draft.objectBrackets.ReadsPart
      (members.map fun member => quoted member.1 ++ ':' :: gap ++ write member.2)
      (Draft.ofMembers members) := by
  rw [Draft.ofMembers_eq_map, List.forall₂_map_left_iff, List.forall₂_map_right_iff, List.forall₂_same]
  exact fun member inside => Draft.readsPart_member member.1 (all member inside) blank

theorem reads {json : Json} (legible : Legible json) :
    Draft.Reads json.compact (Draft.ofJson json) ∧
      ∀ level, Draft.Reads (json.prettyAt level) (Draft.ofJson json) := by
  induction legible with
  | null =>
    have word : Draft.Reads ['n', 'u', 'l', 'l'] .null :=
      Draft.reads_word (show (_, Token.null) ∈ symbols by simp [symbols]) fun _ => rfl
    exact ⟨word, fun _ => word⟩
  | boolean b =>
    have word : Draft.Reads (scalarText (.boolean b)) (.boolean b) := by
      have known : (scalarText (.boolean b), Token.boolean b) ∈ symbols := by
        cases b <;> simp [symbols, scalarText]
      exact Draft.reads_word known fun _ => rfl
    exact ⟨word, fun _ => word⟩
  | @integer n low high =>
    have digits : Draft.Reads (intDigits n) (.number (some (.integer n))) :=
      Draft.reads_of_token (fun _ ends => streamFrom_intDigits low high ends) fun _ => rfl
    exact ⟨digits, fun _ => digits⟩
  | @float x scanned =>
    have digits : Draft.Reads (documentText x).toList (.number (some (.float x))) :=
      Draft.reads_of_token scanned fun _ => rfl
    exact ⟨digits, fun _ => digits⟩
  | text s =>
    have quotes : Draft.Reads (quoted s) (.text (some s)) :=
      Draft.reads_of_token (fun rest _ => streamFrom_quoted s rest) fun _ => rfl
    exact ⟨quotes, fun _ => quotes⟩
  | list all ih =>
    constructor
    · have items := readsItems fun item member => (ih item member).1
      rw [compact, compactItems_eq_map]
      exact Draft.reads_compact items
    · intro level
      have items := readsItems fun item member => (ih item member).2 (level + 1)
      rw [prettyAt, prettyItems_eq_map]
      exact Draft.reads_pretty items level
  | object all ih =>
    constructor
    · have members := readsMembers (fun member inside => (ih member inside).1)
        (show ∀ c ∈ [], isBlank c = true by simp)
      rw [compact, compactMembers_eq_map]
      exact Draft.reads_compact members
    · intro level
      have members := readsMembers (fun member inside => (ih member inside).2 (level + 1))
        (show ∀ c ∈ [' '], isBlank c = true by simp [isBlank])
      rw [prettyAt, prettyMembers_eq_map]
      exact Draft.reads_pretty members level

end Legible

theorem Draft.Reads.read {text blanks : List Char} {draft : Draft} (reads : Reads text draft)
    (blank : ∀ c ∈ blanks, isBlank c = true) : Draft.read (text ++ blanks) = (draft, true) := by
  have stops : StopsRun isNumberPart blanks := by
    have behind := stops_blanks blank (show StopsRun isNumberPart [] by simp [StopsRun])
    rwa [List.append_nil] at behind
  have value := reads ⟨[], .value, .missing⟩ blanks (.inl rfl) stops
  have behind := readText_blanks blank ⟨[], .nothing, draft⟩ []
  rw [List.append_nil] at behind
  exact value.trans behind

private theorem Regular.read?_of_reads {json : Json} {text blanks : List Char}
    (regular : Regular 0 json)
    (reads : Draft.Reads text (Draft.ofJson json)) (blank : ∀ c ∈ blanks, isBlank c = true) :
    read? (String.ofList text ++ String.ofList blanks) = some json := by
  rw [read?, ← String.ofList_append, String.toList_ofList, reads.read blank]
  exact regular.json?_ofJson

/-- A value is read back from its text, on one line or over several, with blanks behind it. -/
theorem Regular.read?_text {json : Json} (regular : Regular 0 json) {blanks : List Char}
    (blank : ∀ c ∈ blanks, isBlank c = true) :
    read? (json.compactText ++ String.ofList blanks) = some json ∧
      read? (json.prettyText ++ String.ofList blanks) = some json :=
  ⟨regular.read?_of_reads regular.legible.reads.1 blank,
    regular.read?_of_reads (regular.legible.reads.2 0) blank⟩

end PullQuery.Json
