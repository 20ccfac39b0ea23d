import PullQuery.Query.Variables
import PullQuery.Proofs.Query.RoundTrip
import PullQuery.Proofs.Query.SignedSeconds
import PullQuery.Record.Field

/-! Queries that compare a field with quoted texts. They are read as they are meant whatever the texts
say: quotes, backslashes, names and durations in a literal are its content. -/
namespace PullQuery.Query
open PullQuery.Text QuoteState Grammar

def quoted (s : String) : String := String.ofList (asLiteral s.toList)

/-- `F IN (s, …)` and the like. -/
def membershipQuery (op name : String) (values : List String) : String :=
  name ++ " " ++ op ++ " (" ++ ", ".intercalate (values.map quoted) ++ ")"

/-- `F = s … F = t` -/
def equalitiesQuery (name : String) (values : List String) : String :=
  " ".intercalate (values.map fun value => name ++ " = " ++ quoted value)

section Durations

/-- A text that leaves no literal open and in which no duration is turned into seconds. -/
structure Steady (cs : List Char) : Prop where
  closed : outside.after cs = outside
  stays : ∀ before rest : List Char, outside.after before.reverse = outside →
    replaceFrom durationRule before 0 (cs ++ rest) =
      cs ++ replaceFrom durationRule (cs.reverse ++ before) 0 rest

theorem Steady.nil : Steady [] := ⟨rfl, fun _ _ _ => rfl⟩

theorem Steady.append {cs more : List Char} (first : Steady cs) (second : Steady more) :
    Steady (cs ++ more) where
  closed := by rw [after_append, first.closed, second.closed]
  stays := by
    intro before rest outer
    have next : outside.after (cs.reverse ++ before).reverse = outside := by
      rw [after_reverse_append, outer, first.closed]
    rw [List.append_assoc, first.stays _ _ outer, second.stays _ _ next]
    simp

theorem steady_plain {cs : List Char}
    (plain : cs.all (fun c => c != '-' && !isDecimal c && !isQuote c) = true) : Steady cs := by
  induction cs with
  | nil => exact .nil
  | cons c cs ih =>
    simp only [List.all_cons, Bool.and_eq_true, bne_iff_ne, ne_eq, Bool.not_eq_true'] at plain
    obtain ⟨⟨⟨minus, digit⟩, quote⟩, others⟩ := plain
    have one : Steady [c] := by
      refine ⟨next_plain quote, fun before rest _ => ?_⟩
      have none : Duration.scan? (c :: rest) = none :=
        Duration.scan?_plain (by simpa using minus) (by simpa [StopsRun] using digit)
      exact replaceFrom_keep (by simp [durationRule, none])
    exact one.append (ih (by simpa using others))

@[simp] theorem toList_quoted (s : String) : (quoted s).toList = asLiteral s.toList :=
  String.toList_ofList

private theorem steady_quoted (s : String) : Steady (quoted s).toList where
  closed := by rw [toList_quoted, (within_asLiteral _).2]
  stays := by
    intro before rest outer
    rw [toList_quoted, replaceFrom_durationRule_asLiteral outer]
    simp [asLiteral]

private theorem steady_intercalate {between : List Char} (steady : Steady between)
    {texts : List (List Char)}
    (each : ∀ text ∈ texts, Steady text) : Steady (between.intercalate texts) := by
  induction texts with
  | nil => exact .nil
  | cons text texts ih =>
    have first := each text (.head _)
    have behind := ih fun text member => each text (.tail _ member)
    cases texts with
    | nil => simpa using first
    | cons other texts =>
      rw [List.intercalate_cons_cons, List.append_assoc]
      exact first.append (steady.append behind)

theorem Steady.expand {cs : List Char} (steady : Steady cs) : expand [] cs = cs := by
  have whole := steady.stays [] [] rfl
  simp only [List.append_nil, replaceFrom] at whole
  exact whole

end Durations

section Names

def fieldNames : List String := Field.every.map Field.name ++ Field.aliases.map (·.1)

theorem mem_fieldNames {name : String} {field : Field}
    (named : Field.ofNameOrAlias? name = some field) : name ∈ fieldNames := by
  rw [fieldNames, List.mem_append]
  unfold Field.ofNameOrAlias? Field.canonicalName at named
  cases found : Field.aliases.find? (fun entry => entry.1 == name) with
  | some entry =>
    have same : entry.1 = name := by simpa using List.find?_some found
    exact .inr (List.mem_map.mpr ⟨entry, List.mem_of_find?_eq_some found, same⟩)
  | none =>
    rw [found] at named
    have same : field.name = name := by simpa using List.find?_some named
    exact .inl (List.mem_map.mpr ⟨field, List.mem_of_find?_eq_some named, same⟩)

theorem tokenize_fieldName {name : String} (listed : name ∈ fieldNames) :
    tokenize name.toList = .ok [.name name] := by
  have each : fieldNames.all (fun name => tokenize name.toList = .ok [.name name]) = true := by
    decide +kernel
  simpa using List.all_eq_true.mp each name listed

theorem steady_fieldName {name : String} (listed : name ∈ fieldNames) : Steady name.toList := by
  have each : fieldNames.all (fun name => name.toList.all fun c =>
      c != '-' && !isDecimal c && !isQuote c) = true := by decide +kernel
  exact steady_plain (List.all_eq_true.mp each name listed)

variable {name : String} (listed : name ∈ fieldNames)
include listed

theorem steady_membershipQuery {op : String} (plain : op.toList.all (fun c =>
    c != '-' && !isDecimal c && !isQuote c) = true) (values : List String) :
    Steady (membershipQuery op name values).toList := by
  have literals : Steady ([',', ' '].intercalate ((values.map quoted).map String.toList)) := by
    apply steady_intercalate (steady_plain (by decide +kernel))
    intro text member
    obtain ⟨literal, written, rfl⟩ := List.mem_map.mp member
    obtain ⟨value, -, rfl⟩ := List.mem_map.mp written
    exact steady_quoted value
  simp only [membershipQuery, String.toList_append, String.toList_intercalate]
  have blank : Steady " ".toList := steady_plain (by decide +kernel)
  have opening : Steady " (".toList := steady_plain (by decide +kernel)
  have closing : Steady ")".toList := steady_plain (by decide +kernel)
  exact (((((steady_fieldName listed).append blank).append (steady_plain plain)).append
    opening).append literals).append closing

theorem steady_equalitiesQuery (values : List String) :
    Steady (equalitiesQuery name values).toList := by
  rw [equalitiesQuery, String.toList_intercalate]
  apply steady_intercalate (steady_plain (by decide +kernel))
  intro text member
  obtain ⟨comparison, written, rfl⟩ := List.mem_map.mp member
  obtain ⟨value, -, rfl⟩ := List.mem_map.mp written
  have equals : Steady " = ".toList := steady_plain (by decide +kernel)
  rw [String.toList_append, String.toList_append]
  exact ((steady_fieldName listed).append equals).append (steady_quoted value)

end Names

/-- What stands between the parentheses of a membership: one text for itself, or the list of all. -/
def Expr.ofTexts : List String → Expr
  | [value] => .text value
  | values => .list (values.map .text)

section Reading
variable {table : OperatorTable}

theorem Grammar.Yields.beside {bound : Option Nat} {e whole : Expr} {parts : List Expr}
    {tokens others : List Token} {name : String} (yields : Yields table bound e tokens)
    (behind : Fills table (e :: parts) whole (.name name :: others)) :
    Fills table parts whole (tokens ++ .name name :: others) := by
  intro groups
  obtain ⟨pending, operand, steps, made, -⟩ := yields ⟨groups, parts, [], none⟩ rfl fun _ _ => trivial
  obtain ⟨s, last, rest, inside, found, finished⟩ := behind groups
  refine ⟨s, last, ?_, inside, found, finished⟩
  have step : State.step? table ⟨groups, parts, pending, some operand⟩ (.name name) =
      State.step? table ⟨groups, e :: parts, [], none⟩ (.name name) := by
    rw [← made]
    rfl
  rw [run_append, steps, Option.bind_some, List.append_nil, run_cons, step]
  exact rest

private theorem Grammar.Yields.last {bound : Option Nat} {e : Expr} {tokens : List Token}
    (yields : Yields table bound e tokens) (parts : List Expr) :
    Fills table parts (.ofParts (e :: parts).reverse) tokens := by
  intro groups
  obtain ⟨pending, operand, steps, whole, -⟩ := yields ⟨groups, parts, [], none⟩ rfl fun _ _ => trivial
  exact ⟨_, operand, steps, rfl, rfl, by simp [State.run, whole]⟩

private theorem reads_quoted (value : String) :
    Reads table none (quoted value).toList (.text value) := by
  rw [toList_quoted]
  exact .leaf (spells_text value) (fun _ => rfl) (by simp)

private theorem readsItems_quoted (values : List String) :
    ReadsItems table ([',', ' '].intercalate ((values.map quoted).map String.toList))
      (values.map .text) := by
  induction values with
  | nil => exact .nil
  | cons value values ih =>
    have first : ReadsPart table [] (quoted value).toList (.text value) := (reads_quoted value).part
    cases values with
    | nil => simpa using first.single
    | cons other values =>
      have whole := first.cons (by simp) ih
      simpa [List.intercalate_cons_cons] using whole

private theorem reads_ofTexts (values : List String) :
    Reads table none
      ('(' :: ([',', ' '].intercalate ((values.map quoted).map String.toList) ++ [')']))
      (Expr.ofTexts values) := by
  have items : ReadsItems table _ _ := readsItems_quoted values
  have joined : Expr.ofItems (values.map .text) = .list (values.map .text) :=
    congrArg _ (Expr.flatMap_splice (by simp [Expr.isList]))
  cases values with
  | nil => exact items.group (by simp)
  | cons value others =>
    cases others with
    | nil =>
      have alone : Reads table none ('(' :: ((quoted value).toList ++ [')'])) (.text value) :=
        (reads_quoted value).part.enclosed
      simpa [Expr.ofTexts] using alone
    | cons other others =>
      have whole := items.group (by simp)
      rwa [joined] at whole

variable {name : String} (single : tokenize name.toList = .ok [.name name])
include single

theorem parse_membershipQuery {op : BinaryOp} {p : Nat} (known : table.precedence op = some p)
    {word : String} (spelled : word.toList = op.spelling) (values : List String) :
    parse table (membershipQuery word name values).toList =
      .ok (.binary op (.name name) (Expr.ofTexts values)) := by
  have left : Reads table none name.toList (.name name) :=
    .leaf (spells_name single) (fun _ => rfl) (by simp)
  have whole := left.binary known (by simp) (reads_ofTexts values) (by simp)
  have text : (membershipQuery word name values).toList = name.toList ++ ' ' :: (op.spelling ++
      ' ' :: '(' :: ([',', ' '].intercalate ((values.map quoted).map String.toList) ++ [')'])) := by
    simp [membershipQuery, spelled]
  rw [text]
  exact whole.part.parse

private theorem fills_equalities {p : Nat} (known : table.precedence .equal = some p)
    {values : List String} (some : values ≠ []) (finished : List Expr) :
    ∃ tokens, Spells (equalitiesQuery name values).toList (.name name :: tokens) ∧
      Fills table finished
        (.ofParts (finished.reverse ++ values.map fun v => .binary .equal (.name name) (.text v)))
        (.name name :: tokens) := by
  -- The equalities that were read before are carried along as finished parts.
  induction values generalizing finished with
  | nil => exact absurd rfl some
  | cons value values ih =>
    have spells : Spells (name ++ " = " ++ quoted value).toList
        [.name name, .equal, .text value] := by
      have parts := (spells_name single).spaced
        ((spells_operator .equal).spaced (spells_text value))
      simpa [BinaryOp.spelling, BinaryOp.token] using parts
    have yields : Yields table (.some p) (.binary .equal (.name name) (.text value))
        [.name name, .equal, .text value] := by
      have left : Yields table none (Operand.name name).expr [.name name] :=
        .leaf (fun _ => rfl) (by simp)
      have right : Yields table none (Operand.value (.text value)).expr [.text value] :=
        .leaf (fun _ => rfl) (by simp)
      exact left.binary known (by simp) right (by simp)
    cases values with
    | nil =>
      refine ⟨_, by simpa [equalitiesQuery] using spells, ?_⟩
      simpa using yields.last finished
    | cons other values =>
      obtain ⟨tokens, spelled, behind⟩ :=
        ih (by simp) (.binary .equal (.name name) (.text value) :: finished)
      refine ⟨[.equal, .text value] ++ .name name :: tokens, ?_, ?_⟩
      · have joined := spells.spaced spelled
        simpa [equalitiesQuery] using joined
      · have whole := yields.beside behind
        simpa using whole

theorem parse_equalitiesQuery {p : Nat} (known : table.precedence .equal = some p)
    (values : List String) :
    parse table (equalitiesQuery name values).toList =
      .ok (.ofParts (values.map fun v => .binary .equal (.name name) (.text v))) := by
  cases values with
  | nil => exact parse_iff.mpr ⟨[], initial, .nil, rfl, rfl⟩
  | cons value values =>
    obtain ⟨tokens, spells, fills⟩ := fills_equalities single known (List.cons_ne_nil value values) []
    exact ReadsPart.parse ⟨_, spells, fills⟩

end Reading
end PullQuery.Query
