import Stepflow.Proofs.Expression.Grammar
import Stepflow.Proofs.Expression.Slicing
import Stepflow.Proofs.Workflow.Reading

/-!
# The notation of references

A text is read as a reference exactly if it is written by the grammar, and reading it never slices it
out of range (`parse_accepts_grammar`). What was read has a normal form: one blank inside each marker,
one behind `not`, and the path with points between its segments, so that brackets, plus signs, leading
zeros and other blanks are gone. It is read as the same reference (`parse_normal`).
-/

namespace Stepflow.Expression

open Text

variable {cs digits : List Char} {s : Segment} {ss path : List Segment} {n : Nat} {root : Root}
  {negated : Bool} {text : String} {e : Expression}

/-- **The reader of references** accepts the texts of the grammar and no others, with the root, the path
and the negation that they write. Every part of a path can be read by slices at byte offsets, none of
which is out of range. -/
theorem parse_accepts_grammar (text : String) :
    (∀ e, parse text = .ok e ↔ e.WrittenAs text) ∧ ∀ cs, partBySlices cs = some (part cs) :=
  ⟨fun _ => parse_eq_ok_iff, partBySlices_eq⟩

/-! ## Segments that their own texts write

A field of the name `7` would be printed like the place 7, and a name with a point like two fields. No
reader makes such fields. -/

/-- Segments each of which is written by its own text, as the head of a part. -/
def Plain (ss : List Segment) : Prop := ∀ s ∈ ss, Head s.text.toList s

theorem plain_cons : Plain (s :: ss) ↔ Head s.text.toList s ∧ Plain ss := List.forall_mem_cons

theorem plain_append {others : List Segment} : Plain (ss ++ others) ↔ Plain ss ∧ Plain others :=
  List.forall_mem_append

/-- However a number is written, its own digits write it too. -/
theorem Numeral.plain (h : Numeral digits n) : Head (Segment.index n).text.toList (.index n) := by
  have htext : (Segment.index n).text.toList = Nat.toDigits 10 n := Nat.toList_repr
  rw [htext]
  exact .index ⟨Nat.toDigits_ne_nil, fun _ => isDigit_of_mem_toDigits, Nat.ofDigitChars_ten_toDigits,
    h.bounded⟩

theorem Head.plain (h : Head cs s) : Head s.text.toList s := by
  cases h with
  | index h => exact h.plain
  | field hne hname hdigits =>
    rw [Segment.text, String.toList_ofList]
    exact .field hne hname hdigits

theorem Bracketed.plain (h : Bracketed cs n) : Head (Segment.index n).text.toList (.index n) := by
  cases h with
  | intro _ _ hdigits _ => exact hdigits.plain

theorem Places.plain (h : Places cs ss) : Plain ss := by
  induction h with
  | nil => exact List.forall_mem_nil _
  | cons hgroup _ ih => exact plain_cons.2 ⟨hgroup.plain, ih⟩

theorem Part.plain (h : Part cs ss) : Plain ss := by
  cases h with
  | head hhead hgroups => exact plain_cons.2 ⟨hhead.plain, hgroups.plain⟩
  | bare hgroups => exact hgroups.plain

/-- **What is read** from a path are segments that their own texts write. -/
theorem Dotted.plain (h : Dotted cs ss) : Plain ss := by
  induction h with
  | last _ hpart => exact hpart.plain
  | cons _ hpart _ ih => exact plain_append.2 ⟨hpart.plain, ih⟩

theorem Body.plain_segments (h : Body negated cs ss) : Plain ss := by
  cases h with
  | plain h | negated _ _ h => exact h.plain

/-! ## The normal form -/

/-- The normal form of a reference. -/
def normal (e : Expression) : String :=
  "$\x7b\x7b " ++ (if e.negated then "not " else "") ++ e.dottedPath ++ " \x7d\x7d"

/-- The characters of segments with a point in front of each. -/
def pointed (ss : List Segment) : List Char := ss.flatMap fun s => '.' :: s.text.toList

theorem toList_dotted (root : Root) (path : List Segment) :
    (dotted root path).toList = root.word.toList ++ pointed path := by
  unfold dotted pointed
  generalize root.word = word
  induction path generalizing word with
  | nil => exact (List.append_nil _).symm
  | cons s rest ih =>
    rw [List.foldl_cons, ih, List.flatMap_cons, String.toList_append, String.toList_append]
    simp

/-- A head has no blank at its ends and no point. -/
theorem Head.part (h : Head cs s) : '.' ∉ cs ∧ Part (trim cs) [s] := by
  have hblank (c : Char) (hc : c ∈ cs) : isBlank c = false := isBlank_of_isNameChar (h.isNameChar c hc)
  refine ⟨fun hm => absurd (h.isNameChar _ hm) (by decide), ?_⟩
  have htrim : trim ([] ++ cs ++ []) = cs :=
    trim_append (List.forall_mem_nil _) (List.forall_mem_nil _) h.ne_nil
      (fun c hc => hblank c (List.mem_of_head? hc)) fun c hc => hblank c (List.mem_of_getLast? hc)
  rw [List.nil_append, List.append_nil] at htrim
  have hpart := Part.head h .nil
  rwa [List.append_nil, ← htrim] at hpart

/-- **Plain segments** are written by their texts with points between them. -/
theorem Plain.dotted (h : Plain (s :: ss)) : Dotted (s.text.toList ++ pointed ss) (s :: ss) := by
  induction ss generalizing s with
  | nil =>
    obtain ⟨hpoint, hpart⟩ := (plain_cons.1 h).1.part
    rw [pointed, List.flatMap_nil, List.append_nil]
    exact .last hpoint hpart
  | cons next rest ih =>
    obtain ⟨hhead, hrest⟩ := plain_cons.1 h
    obtain ⟨hpoint, hpart⟩ := hhead.part
    exact .cons hpoint hpart (ih hrest)

/-- Plain segments are written without blanks. -/
theorem Plain.isBlank_eq_false (h : Plain (s :: ss)) :
    ∀ c ∈ s.text.toList ++ pointed ss, isBlank c = false := by
  have htext (t : Segment) (ht : t ∈ s :: ss) (c : Char) (hc : c ∈ t.text.toList) : isBlank c = false :=
    isBlank_of_isNameChar ((h t ht).isNameChar c hc)
  intro c hc
  obtain hc | hc := List.mem_append.1 hc
  · exact htext s List.mem_cons_self c hc
  · obtain ⟨t, ht, hc⟩ := List.mem_flatMap.1 hc
    obtain rfl | hc := List.mem_cons.1 hc
    · decide
    · exact htext t (List.mem_cons_of_mem s ht) c hc

/-- What the normal form has in front of the path. -/
def negationMark (negated : Bool) : List Char := if negated then ['n', 'o', 't', ' '] else []

theorem toList_normal (e : Expression) : e.normal.toList = opening ++
    ([' '] ++ (negationMark e.negated ++ (e.root.word.toList ++ pointed e.path)) ++ [' ']) ++ closing := by
  rw [← toList_dotted, normal, dottedPath]
  cases e.negated <;> simp [negationMark, opening, closing, String.toList_append]

/-- **The normal form is written by the grammar**, and writes what the reference is. -/
theorem WrittenAs.normal (h : e.WrittenAs text) :
    WrittenAs { e with raw := e.normal } e.normal := by
  obtain ⟨inner, -, hbody⟩ := h.enclosed
  have hplain := hbody.plain_segments
  have hdotted := hplain.dotted
  have hblank := hplain.isBlank_eq_false
  rw [Segment.text] at hdotted hblank
  have hne := hdotted.ne_nil
  have htext := toList_normal e
  generalize e.root.word.toList ++ pointed e.path = path at hdotted hblank hne htext
  -- the blanks inside the markers are the only ones at the ends of what stands there
  have hspace : ∀ c ∈ [' '], isBlank c = true := List.forall_mem_singleton.2 rfl
  have hinner : trim ([' '] ++ (negationMark e.negated ++ path) ++ [' ']) =
      negationMark e.negated ++ path := by
    refine trim_append hspace hspace (List.append_ne_nil_of_right_ne_nil _ hne) (fun c hc => ?_)
      fun c hc => ?_
    · cases hn : e.negated with
      | false =>
        rw [hn] at hc
        exact hblank c (List.mem_of_head? hc)
      | true =>
        rw [hn] at hc
        rw [← Option.some.inj hc]
        decide
    · rw [List.getLast?_append_of_ne_nil _ hne] at hc
      exact hblank c (List.mem_of_getLast? hc)
  have hwritten : Body e.negated (trim ([' '] ++ (negationMark e.negated ++ path) ++ [' ']))
      (.field e.root.word :: e.path) := by
    rw [hinner]
    cases e.negated with
    | false => exact .plain hdotted
    | true => exact .negated (List.cons_ne_nil ' ' []) hspace hdotted
  have htrim : trim e.normal.toList = e.normal.toList := by
    rw [htext, trim_enclosed]
  exact {
    raw := by rw [htrim, String.ofList_toList]
    enclosed := ⟨_, htrim.trans htext, hwritten⟩
    follows := h.follows }

/-- **References have a normal form.** A reference that was read from a text is read from the text that
it keeps, so whatever says that text in a document is decoded to it; and its normal form is read as a
reference with the same root, path and negation. -/
theorem parse_normal (h : parse text = .ok e) :
    parse e.raw = .ok e ∧ (∀ i : Item, i.text? = some e.raw → i.expression? = some e) ∧
      parse e.normal = .ok { e with raw := e.normal } := by
  have hraw := IsRead.parse_raw ⟨text, h⟩
  refine ⟨hraw, fun i hi => ?_, parse_eq_ok_iff.2 (parse_eq_ok_iff.1 h).normal⟩
  rw [Item.expression?, hi, Option.bind_some, hraw]
  rfl

/-- A reference with brackets, blanks, a sign and zeros in front, and its normal form. -/
theorem parse_normal_of_brackets :
    ∃ e, parse "$\x7b\x7bnot  steps.load . output[ +07 ].002\x7d\x7d" = .ok e ∧ parse e.raw = .ok e ∧
      e.normal = "$\x7b\x7b not steps.load.output.7.2 \x7d\x7d" ∧
      parse e.normal = .ok { e with raw := e.normal } := by
  have hread : parse "$\x7b\x7bnot  steps.load . output[ +07 ].002\x7d\x7d" =
      .ok ⟨"$\x7b\x7bnot  steps.load . output[ +07 ].002\x7d\x7d", .stepOutput,
        [.field "load", .field "output", .index 7, .index 2], true⟩ := rfl
  exact ⟨_, hread, (parse_normal hread).1, rfl, (parse_normal hread).2.2⟩

end Stepflow.Expression
