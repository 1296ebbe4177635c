import Stepflow.Proofs.Expression.Grammar
import Stepflow.Proofs.Validation.Written
import Stepflow.Step.Builder

/-!
# Referring to inputs by their names

A valid workflow declares inputs whose names consist of letters, digits, underscores and hyphens. These are
the characters of the names in a path, but a part of a path that has digits only is a place in a list
(`part_of_name`), and behind the root there must be a name. So an input can be referred to exactly if its
name is no number (`input_referable_iff`). Then the reference has its value in every context, and null where
it is not given.
-/

namespace Stepflow

open Text

namespace Expression

variable {cs : List Char} {name : String} {e : Expression}

/-- The text of a reference to an input. -/
def toInput (name : String) : String := "$\x7b\x7b inputs." ++ name ++ " \x7d\x7d"

/-- **A reference names an input**: it starts from the inputs with this name, and in every context it has
the value of that input, or null where there is none. -/
structure NamesInput (e : Expression) (name : String) : Prop where
  /-- It starts from the inputs. -/
  root : e.root = .input
  /-- It goes on with the name. -/
  rootName : e.rootName = name
  /-- It has the value of the input. -/
  value : ∀ c : Context, e.evaluate c = .ok ((c.inputs.get? name).getD .null)

/-! ## Names as parts of a path -/

/-- **A name is one part of a path**: what stands before its first bracket, as it has none. -/
theorem part_of_name (hne : cs ≠ []) (hname : ∀ c ∈ cs, isNameChar c = true) :
    part cs = (head cs).map fun s => [s] := by
  have hblank : ∀ c ∈ cs, isBlank c = false := fun c hc => isBlank_of_isNameChar (hname c hc)
  have htrim : trim ([] ++ cs ++ []) = cs :=
    trim_append (List.forall_mem_nil _) (List.forall_mem_nil _) hne
      (fun c hc => hblank c (List.mem_of_head? hc)) fun c hc => hblank c (List.mem_of_getLast? hc)
  have hspan : cs.takeWhile (· ≠ '[') = cs ∧ cs.dropWhile (· ≠ '[') = [] := by
    have hall := @span_bracket cs [] hname nofun
    rwa [List.append_nil] at hall
  rw [List.append_nil, List.nil_append] at htrim
  have hempty : cs.isEmpty = false := List.isEmpty_eq_false_iff.2 hne
  have hplaces : places cs.length [] = .ok [] := by rw [places]
  unfold part
  dsimp only
  rw [htrim, hspan.1, hspan.2, hempty, hplaces]
  cases head cs <;> rfl

/-- What stands between the markers of a reference to an input. -/
theorem body_inputs (hne : cs ≠ []) (hname : ∀ c ∈ cs, isNameChar c = true) :
    body ([' '] ++ ("inputs".toList ++ '.' :: cs) ++ [' ']) = match head cs with
      | .error cause => .error cause
      | .ok (.index _) => .error (.indexAfterRoot "inputs")
      | .ok (.field name) => .ok (.input, [.field name], false) := by
  have hspace : ∀ c ∈ [' '], isBlank c = true := List.forall_mem_singleton.2 rfl
  have htrim : trim ([' '] ++ ("inputs".toList ++ '.' :: cs) ++ [' ']) = "inputs".toList ++ '.' :: cs := by
    refine trim_append hspace hspace (List.append_ne_nil_of_right_ne_nil _ (List.cons_ne_nil _ _))
      (fun c hc => ?_) fun c hc => ?_
    · rw [← Option.some.inj hc]
      decide
    · rw [List.getLast?_append_of_ne_nil _ (List.cons_ne_nil _ _),
        List.getLast?_cons_of_ne_nil hne] at hc
      exact isBlank_of_isNameChar (hname c (List.mem_of_getLast? hc))
  have hpoint : '.' ∉ cs := fun hm => absurd (hname _ hm) (by decide)
  have hpieces : splitAt '.' ("inputs".toList ++ '.' :: cs) = ["inputs".toList, cs] := by
    rw [splitAt_append (by decide), splitAt_of_not_mem hpoint]
  have hparts : parts ["inputs".toList, cs] = (head cs).map fun s => [.field "inputs", s] := by
    have hroot : part "inputs".toList = .ok [.field "inputs"] := rfl
    rw [parts, parts, parts, hroot, part_of_name hne hname]
    cases head cs <;> rfl
  have hnegation : negation ("inputs".toList ++ '.' :: cs) = (false, "inputs".toList ++ '.' :: cs) := rfl
  unfold body
  rw [htrim, hnegation]
  dsimp only
  rw [hpieces, hparts]
  cases hhead : head cs with
  | error cause => rfl
  | ok s => cases s <;> rfl

/-- The characters of a reference to an input. -/
theorem toList_toInput (name : String) : (toInput name).toList =
    opening ++ ([' '] ++ ("inputs".toList ++ '.' :: name.toList) ++ [' ']) ++ closing := by
  simp [toInput, opening, closing, String.toList_append]

/-- **A reference to an input is read** if the name is the head of a part that is a field. -/
theorem parse_toInput (hvalid : Workflow.isValidInputName name = true) :
    parse (toInput name) = match head name.toList with
      | .error cause => .error ⟨toInput name, cause⟩
      | .ok (.index _) => .error ⟨toInput name, .indexAfterRoot "inputs"⟩
      | .ok (.field field) => .ok ⟨toInput name, .input, [.field field], false⟩ := by
  simp only [Workflow.isValidInputName, ne_eq, Bool.and_eq_true, decide_eq_true_eq] at hvalid
  have hne : name.toList ≠ [] := fun hnil => hvalid.1 (String.toList_eq_nil_iff.1 hnil)
  rw [parse, toList_toInput, parseChars_enclosed, body_inputs hne (List.all_eq_true.1 hvalid.2),
    ← toList_toInput, String.ofList_toList]
  cases head name.toList with
  | error cause => rfl
  | ok s => cases s <;> rfl

/-- A path of one name leads to the input. -/
theorem namesInput_of_path {raw : String} :
    NamesInput ⟨raw, .input, [.field name], false⟩ name where
  root := rfl
  rootName := rfl
  value := fun c => by
    unfold evaluate lookup rootName
    cases c.inputs.get? name <;> rfl

end Expression

namespace Workflow

open Expression Validation

variable {w : Workflow} {name : String}

/-- A valid workflow declares inputs of valid names. -/
theorem isValidInputName_of_valid (h : w.check.isValid) (hname : name ∈ Table.names w.inputs) :
    isValidInputName name = true := by
  obtain ⟨e, he, rfl⟩ := List.mem_map.1 hname
  have hnone := (parts_of_valid h).1 e he
  rw [inputIssues, List.append_eq_nil_iff, issueIf_eq_nil] at hnone
  simpa using hnone.1

/-- **An input can be referred to exactly if its name is no number.** In a valid workflow, the reference to a
declared input is read if there is a character in the name that is no digit, and then it names this input;
a name of digits only is taken for a place, and the reference is refused. -/
theorem input_referable_iff (h : w.check.isValid = true) (hname : name ∈ Table.names w.inputs) :
    ((∃ e, parse (toInput name) = .ok e) ↔ ∃ c ∈ name.toList, isDigit c = false) ∧
      ∀ e, parse (toInput name) = .ok e → e.NamesInput name := by
  have hvalid := isValidInputName_of_valid h hname
  have hparse := parse_toInput hvalid
  simp only [isValidInputName, ne_eq, Bool.and_eq_true, decide_eq_true_eq] at hvalid
  by_cases hdigits : name.toList.all isDigit = true
  · -- the head of a part that has only digits is a place, or too large for one
    have hnone : ∃ error, parse (toInput name) = .error error := by
      rw [hparse, head, if_pos hdigits]
      cases readNat? placeBound name.toList with
      | none => exact ⟨_, rfl⟩
      | some n => exact ⟨_, rfl⟩
    obtain ⟨error, herror⟩ := hnone
    rw [herror]
    refine ⟨⟨nofun, ?_⟩, nofun⟩
    rintro ⟨c, hc, hno⟩
    rw [List.all_eq_true.1 hdigits c hc] at hno
    contradiction
  · have hfield : head name.toList = .ok (.field name) := by
      rw [head, if_neg hdigits, if_pos hvalid.2, String.ofList_toList]
    rw [hfield] at hparse
    refine ⟨⟨fun _ => ?_, fun _ => ⟨_, hparse⟩⟩, fun e he => ?_⟩
    · simpa using hdigits
    · obtain rfl := Except.ok.inj (hparse.symm.trans he)
      exact namesInput_of_path

end Workflow

namespace Sample

/-- A workflow with two inputs, the name of one of which is a number. -/
def numbered : Workflow :=
  { Workflow.empty "main" with
    inputs := [("0", { type := .string }), ("2nd-try", { type := .integer })]
    steps := [Step.call "first" "make"] }

/-- A context in which the other is given. -/
def secondTry : Context := { inputs := [("2nd-try", .int 3)] }

end Sample

namespace Workflow

open Expression Sample

/-- The input whose name begins with a digit can be referred to, given or not; the one whose name is a digit
cannot. -/
theorem input_referable_iff_numbered : numbered.check.isValid = true ∧
    (∃ e, parse "$\x7b\x7b inputs.2nd-try \x7d\x7d" = .ok e ∧ e.evaluate secondTry = .ok (.int 3) ∧
      e.evaluate {} = .ok .null) ∧ ¬ ∃ e, parse "$\x7b\x7b inputs.0 \x7d\x7d" = .ok e := by
  have hvalid : numbered.check.isValid = true := by decide
  have hdeclared : "2nd-try" ∈ Table.names numbered.inputs ∧ "0" ∈ Table.names numbered.inputs := by decide
  have hsecond := input_referable_iff hvalid hdeclared.1
  have hzero := input_referable_iff hvalid hdeclared.2
  obtain ⟨e, he⟩ := hsecond.1.2 ⟨'n', by decide, by decide⟩
  have hnames := hsecond.2 e he
  refine ⟨hvalid, ⟨e, he, hnames.value secondTry, hnames.value {}⟩, fun hread => ?_⟩
  obtain ⟨c, hc, hno⟩ := hzero.1.1 hread
  obtain rfl := List.mem_singleton.1 hc
  contradiction

/-- **Not every declared input can be referred to.** -/
theorem not_input_referable : ¬ ∀ (w : Workflow) (name : String), w.check.isValid = true →
    name ∈ Table.names w.inputs → ∃ e, parse (toInput name) = .ok e ∧ e.NamesInput name := by
  intro h
  obtain ⟨e, he, -⟩ := h numbered "0" (by decide) (by decide)
  have herror : parse (toInput "0") = .error ⟨toInput "0", .indexAfterRoot "inputs"⟩ := rfl
  rw [herror] at he
  contradiction

end Workflow

end Stepflow
