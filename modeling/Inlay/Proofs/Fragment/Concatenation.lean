import Inlay.Proofs.Fragment.Location
import Mathlib

/-!
# Joined texts

When a text with only closed fragments goes on with another text, and no opening marker stands
across the cut, the fragments are those of the two texts. The transformed text is then that of the
two, and a rejection is at the same fragment as it would be in the one text alone
(`transform_append`).
-/

namespace Inlay

/-! ### Segments -/

theorem segmentsFrom_of_none {tags : Tags} {afterEmpty : Bool} {text : Text}
    (h : nextSegment? tags afterEmpty text = none) :
    segmentsFrom tags afterEmpty text = ([], text) := by
  rw [segmentsFrom]
  split
  · rfl
  · next hsome => simp [h] at hsome

theorem segmentsFrom_of_some {tags : Tags} {afterEmpty : Bool} {text after : Text}
    {segment : Segment} (h : nextSegment? tags afterEmpty text = some (segment, after)) :
    segmentsFrom tags afterEmpty text =
      (segment :: (segmentsFrom tags (segment.text tags).isEmpty after).1,
        (segmentsFrom tags (segment.text tags).isEmpty after).2) := by
  rw [segmentsFrom]
  split
  · next hnone => simp [h] at hnone
  · next segment' after' hsome =>
    obtain ⟨rfl, rfl⟩ := Prod.mk.inj (Option.some.inj (h.symm.trans hsome))
    rfl

/-- The segments and the tail of a text that has more host text before it. -/
def precede (lead : Text) : List Segment × Text → List Segment × Text
  | ([], tail) => ([], lead ++ tail)
  | (s :: rest, tail) => ({ s with gap := lead ++ s.gap } :: rest, tail)

theorem segmentsFrom_precede {tags : Tags} (ho : tags.openTag ≠ []) {a b : Text}
    (ha : Text.cutFirst tags.openTag a = none) (hcut : Text.SafeCut tags.openTag a b) :
    segmentsFrom tags false (a ++ b) = precede a (segmentsFrom tags false b) := by
  have hnext : nextSegment? tags false (a ++ b) = (nextSegment? tags false b).map
      fun next => ({ next.1 with gap := a ++ next.1.gap }, next.2) := by
    rw [nextSegment?_false, nextSegment?_false, Text.cutFirst_append_of_none ha hcut,
      Option.map_map, Option.map_map]
    rfl
  cases hb : nextSegment? tags false b with
  | none =>
    rw [hb] at hnext
    rw [segmentsFrom_of_none hb, segmentsFrom_of_none hnext]
    rfl
  | some next =>
    obtain ⟨segment, after⟩ := next
    rw [hb] at hnext
    rw [segmentsFrom_of_some hb, segmentsFrom_of_some hnext, isEmpty_text ho, isEmpty_text ho]
    rfl

/-- A closed segment ends before what follows the text. -/
theorem nextSegment?_append {tags : Tags} {text after : Text} {segment : Segment}
    (h : nextSegment? tags false text = some (segment, after)) (hclosed : segment.closed = true)
    (b : Text) : nextSegment? tags false (text ++ b) = some (segment, after ++ b) := by
  rw [nextSegment?_false] at h ⊢
  obtain ⟨⟨gap, body⟩, hopen, he⟩ := Option.map_eq_some_iff.1 h
  obtain ⟨rfl, rfl⟩ := Prod.mk.inj he
  rw [Text.cutFirst_append hopen]
  cases hclose : Text.cutFirst tags.closeTag body with
  | none => simp [cutClose, hclose] at hclosed
  | some cut =>
    obtain ⟨inner, after⟩ := cut
    simp only [Option.map_some, cutClose, hclose, Text.cutFirst_append hclose]

theorem segmentsFrom_append {tags : Tags} (ho : tags.openTag ≠ []) {a b : Text}
    (hclosed : ∀ s ∈ (segmentsFrom tags false a).1, s.closed = true)
    (hcut : Text.SafeCut tags.openTag a b) :
    segmentsFrom tags false (a ++ b) =
      ((segmentsFrom tags false a).1 ++
        (precede (segmentsFrom tags false a).2 (segmentsFrom tags false b)).1,
        (precede (segmentsFrom tags false a).2 (segmentsFrom tags false b)).2) := by
  generalize hf : false = afterEmpty at hclosed ⊢
  fun_induction segmentsFrom tags afterEmpty a with
  | case1 afterEmpty a hnext =>
    subst hf
    rw [nextSegment?_false, Option.map_eq_none_iff] at hnext
    exact segmentsFrom_precede ho hnext hcut
  | case2 afterEmpty a segment after hnext _ more tail hmore ih =>
    subst hf
    rw [hmore, isEmpty_text ho] at ih
    obtain ⟨hsegment, hrest⟩ := List.forall_mem_cons.1 hclosed
    rw [← text_append_of_nextSegment? hnext] at hcut
    rw [segmentsFrom_of_some (nextSegment?_append hnext hsegment b), isEmpty_text ho,
      ih hcut.of_append rfl hrest]
    rfl

/-! ### Fragments -/

def Fragment.shift (n : Nat) (f : Fragment) : Fragment :=
  { f with start := f.start + n, stop := f.stop + n }

theorem place_add (tags : Tags) (offset n : Nat) (segments : List Segment) :
    place tags (offset + n) segments = (place tags offset segments).map (·.shift n) := by
  induction segments generalizing offset with
  | nil => rfl
  | cons s rest ih =>
    have hstart : offset + n + s.gap.length = offset + s.gap.length + n := by omega
    have hstop : offset + s.gap.length + n + (s.body tags.openTag tags.closeTag).length =
      offset + s.gap.length + (s.body tags.openTag tags.closeTag).length + n := by omega
    simp only [place, List.map_cons, Fragment.shift, hstart, hstop]
    rw [ih]
    rfl

theorem place_precede (tags : Tags) (offset : Nat) (lead : Text) (cut : List Segment × Text) :
    place tags offset (precede lead cut).1 = place tags (offset + lead.length) cut.1 := by
  obtain ⟨segments, tail⟩ := cut
  cases segments with
  | nil => rfl
  | cons s rest => simp only [precede, place, Segment.body, List.length_append, Nat.add_assoc]

theorem map_closed_place (tags : Tags) (offset : Nat) (segments : List Segment) :
    (place tags offset segments).map (·.closed) = segments.map (·.closed) := by
  induction segments generalizing offset with
  | nil => rfl
  | cons s rest ih => rw [place, List.map_cons, List.map_cons, ih]

theorem start_le_of_mem_place {tags : Tags} {offset : Nat} {segments : List Segment}
    {f : Fragment} (h : f ∈ place tags offset segments) :
    f.start ≤ offset + (segments.flatMap (·.text tags)).length := by
  induction segments generalizing offset with
  | nil => simp [place] at h
  | cons s rest ih =>
    have hs : (s.text tags).length = s.gap.length + (s.body tags.openTag tags.closeTag).length :=
      List.length_append
    rw [place] at h
    rw [List.flatMap_cons, List.length_append]
    rcases List.mem_cons.1 h with rfl | h
    · simp only
      omega
    · have := ih h
      omega

theorem start_le_of_mem_extract {tags : Tags} {text : Text} {f : Fragment}
    (h : f ∈ extract tags text) : f.start ≤ text.length := by
  have hstart := start_le_of_mem_place h
  have hjoin := congrArg List.length (join_segments tags text)
  rw [List.length_append] at hjoin
  omega

theorem closed_segments_of_extract {tags : Tags} {text : Text}
    (h : ∀ f ∈ extract tags text, f.closed = true) :
    ∀ s ∈ (segments tags text).1, s.closed = true := by
  intro s hs
  have hmap : (extract tags text).map (·.closed) = (segments tags text).1.map (·.closed) :=
    map_closed_place tags 0 _
  have hclosed := List.mem_map_of_mem (f := (·.closed)) hs
  rw [← hmap] at hclosed
  obtain ⟨f, hf, he⟩ := List.mem_map.1 hclosed
  exact he ▸ h f hf

section
variable {tags : Tags} {a b : Text} (ho : tags.openTag ≠ [])
  (hclosed : ∀ f ∈ extract tags a, f.closed = true) (hcut : Text.SafeCut tags.openTag a b)
include ho hclosed hcut

theorem segments_append :
    segments tags (a ++ b) =
      ((segments tags a).1 ++ (precede (segments tags a).2 (segments tags b)).1,
        (precede (segments tags a).2 (segments tags b)).2) :=
  segmentsFrom_append ho (closed_segments_of_extract hclosed) hcut

theorem extract_append :
    extract tags (a ++ b) = extract tags a ++ (extract tags b).map (·.shift a.length) := by
  have hlength := congrArg List.length (join_segments tags a)
  rw [List.length_append] at hlength
  rw [extract, segments_append ho hclosed hcut, place_append, place_precede, extract, extract,
    ← place_add, Nat.zero_add, Nat.zero_add, hlength]

end

/-! ### Results -/

/-- A compiler that gives a text for what it does not reject, and knows nothing of places. -/
def Compiler.Plain (compiler : Compiler) : Prop :=
  ∀ source, (∃ t, compiler.compile source = .ok (.text t)) ∨
    ∃ kind reason, compiler.compile source = .error (.rejected kind reason)

/-- The text that a compiler gives. -/
def Compiler.output (compiler : Compiler) (source : Text) : Text :=
  match compiler.compile source with
  | .ok (.text t) => t
  | _ => []

/-- What a compiler says to the fragments of a text. -/
def verdicts (compiler : Compiler) (tags : Tags) (text : Text) : List (Except Failure Value) :=
  (extract tags text).map (compiler.compile ·.inner)

theorem verdicts_append (compiler : Compiler) {tags : Tags} (ho : tags.openTag ≠ []) {a b : Text}
    (hclosed : ∀ f ∈ extract tags a, f.closed = true) (hcut : Text.SafeCut tags.openTag a b) :
    verdicts compiler tags (a ++ b) = verdicts compiler tags a ++ verdicts compiler tags b := by
  rw [verdicts, extract_append ho hclosed hcut, List.map_append, List.map_map]
  rfl

theorem flatMap_rendered_precede (tags : Tags) (render : Text → Text) (lead : Text)
    (cut : List Segment × Text) :
    (precede lead cut).1.flatMap (·.rendered tags render) ++ (precede lead cut).2 =
      lead ++ (cut.1.flatMap (·.rendered tags render) ++ cut.2) := by
  obtain ⟨segments, tail⟩ := cut
  cases segments with
  | nil => rfl
  | cons s rest =>
    simp only [precede, List.flatMap_cons, Segment.rendered, List.append_assoc]

section
variable {compiler : Compiler} {tags : Tags} {text : Text}

theorem transform_of_accepted (hplain : compiler.Plain)
    (h : ∀ failure, .error failure ∉ verdicts compiler tags text) (file : Path) :
    transform compiler tags file text =
      .ok ((segments tags text).1.flatMap (·.rendered tags compiler.output) ++
        (segments tags text).2) := by
  refine transform_of_ok (fun f hf => ?_) file
  rcases hplain f.inner with ⟨t, ht⟩ | ⟨kind, reason, hrejected⟩
  · rw [Compiler.output, ht]
  · exact absurd (List.mem_map.2 ⟨f, hf, hrejected⟩) (h _)

theorem transform_of_rejected {before after : List (Except Failure Value)} {failure : Failure}
    (h : verdicts compiler tags text = before ++ .error failure :: after)
    (hbefore : ∀ g, .error g ∉ before) (file : Path) :
    ∃ fragment, (extract tags text)[before.length]? = some fragment ∧
      transform compiler tags file text = .error (locate file before.length
        (1 + Text.countLines (text.take fragment.start)) failure) := by
  have hcall : ∀ source, (pure (compiler.compile source) : StateM Unit (Except Failure Value)) =
      pure (compiler.compile source) := fun _ => rfl
  have hanswers : answers (fun source => (pure (compiler.compile source) :
      StateM Unit (Except Failure Value))) () ((extract tags text).map (·.inner)) =
      before ++ .error failure :: after := by
    rw [answers_pure hcall, List.map_map, ← h]
    rfl
  obtain ⟨fragment, _, hat, hrun⟩ := run_of_rejected hanswers hbefore file
  refine ⟨fragment, hat, ?_⟩
  rw [← run_transformWith_pure hcall text (), ← run_transformWith_noting text () [], hrun]

theorem exists_rejected_of_transform (hplain : compiler.Plain) {file : Path} {failure : Failure}
    (h : transform compiler tags file text = .error failure) :
    ∃ before kind reason after fragment,
      verdicts compiler tags text = before ++ .error (.rejected kind reason) :: after ∧
      (∀ g, .error g ∉ before) ∧ (extract tags text)[before.length]? = some fragment ∧
      failure = locate file before.length (1 + Text.countLines (text.take fragment.start))
        (.rejected kind reason) := by
  have hsome : ∃ g, .error g ∈ verdicts compiler tags text := by
    by_contra! hnone
    simp [transform_of_accepted hplain hnone] at h
  obtain ⟨g, hg⟩ := hsome
  obtain ⟨before, cause, after, hverdicts, hbefore⟩ := exists_first_rejection hg
  obtain ⟨fragment, hat, htransform⟩ := transform_of_rejected hverdicts hbefore file
  have hmem : .error cause ∈ verdicts compiler tags text := by rw [hverdicts]; simp
  obtain ⟨f, _, hcause⟩ := List.mem_map.1 hmem
  rcases hplain f.inner with ⟨t, ht⟩ | ⟨kind, reason, hrejected⟩
  · simp [ht] at hcause
  · obtain rfl := Except.error.inj (hrejected.symm.trans hcause)
    exact ⟨before, kind, reason, after, fragment, hverdicts, hbefore, hat,
      Except.error.inj (h.symm.trans htransform)⟩

theorem accepted_of_transform {file : Path} {result : Text}
    (h : transform compiler tags file text = .ok result) :
    ∀ failure, .error failure ∉ verdicts compiler tags text := by
  intro failure hmem
  obtain ⟨before, cause, after, hverdicts, hbefore⟩ := exists_first_rejection hmem
  obtain ⟨fragment, _, htransform⟩ := transform_of_rejected hverdicts hbefore file
  simp [htransform] at h

end

/-- When no opening marker stands across the cut between two texts and no fragment of the first one
is open at its end, the fragments and the results of the joined texts are those of the two. A
rejection keeps its place, counted from the start of the joined texts. -/
theorem transform_append {compiler : Compiler} (hplain : compiler.Plain) {tags : Tags}
    (ho : tags.openTag ≠ []) {a b : Text} (hclosed : ∀ f ∈ extract tags a, f.closed = true)
    (hcut : Text.SafeCut tags.openTag a b) (file : Path) :
    extract tags (a ++ b) = extract tags a ++ (extract tags b).map (·.shift a.length) ∧
    (∀ x y, transform compiler tags file a = .ok x → transform compiler tags file b = .ok y →
      transform compiler tags file (a ++ b) = .ok (x ++ y)) ∧
    (∀ failure, transform compiler tags file a = .error failure →
      ∃ fault line, failure = .fragment fault ∧ fault.line = some line ∧
        transform compiler tags file (a ++ b) = .error (.fragment fault)) ∧
    ∀ x failure, transform compiler tags file a = .ok x →
      transform compiler tags file b = .error failure →
      ∃ fault line, failure = .fragment fault ∧ fault.line = some line ∧
        transform compiler tags file (a ++ b) = .error (.fragment { fault with
          index := fault.index + (extract tags a).length
          line := some (line + Text.countLines a) }) := by
  have hextract := extract_append ho hclosed hcut
  have hverdicts := verdicts_append compiler ho hclosed hcut
  refine ⟨hextract, fun x y hx hy => ?_, fun failure ha => ?_, fun x failure hx hb => ?_⟩
  · have hboth : ∀ f, .error f ∉ verdicts compiler tags (a ++ b) := fun f => by
      rw [hverdicts, List.mem_append, not_or]
      exact ⟨accepted_of_transform hx f, accepted_of_transform hy f⟩
    rw [transform_of_accepted hplain (accepted_of_transform hx), Except.ok.injEq] at hx
    rw [transform_of_accepted hplain (accepted_of_transform hy), Except.ok.injEq] at hy
    rw [transform_of_accepted hplain hboth, segments_append ho hclosed hcut, List.flatMap_append,
      List.append_assoc, flatMap_rendered_precede, hy, ← List.append_assoc, hx]
  · obtain ⟨before, kind, reason, after, fragment, hfirst, hbefore, hat, rfl⟩ :=
      exists_rejected_of_transform hplain ha
    rw [hfirst, List.append_assoc, List.cons_append] at hverdicts
    obtain ⟨found, hfound, htransform⟩ := transform_of_rejected hverdicts hbefore file
    obtain ⟨hlt, _⟩ := List.getElem?_eq_some_iff.1 hat
    rw [hextract, List.getElem?_append_left hlt, hat] at hfound
    obtain rfl := Option.some.inj hfound
    have hstart := start_le_of_mem_extract (List.mem_of_getElem? hat)
    refine ⟨_, _, rfl, rfl, ?_⟩
    rw [htransform, List.take_append_of_le_length hstart]
    rfl
  · obtain ⟨before, kind, reason, after, fragment, hfirst, hbefore, hat, rfl⟩ :=
      exists_rejected_of_transform hplain hb
    have hnone := accepted_of_transform hx
    rw [hfirst, ← List.append_assoc] at hverdicts
    obtain ⟨found, hfound, htransform⟩ := transform_of_rejected hverdicts
      (fun g hg => (List.mem_append.1 hg).elim (hnone g) (hbefore g)) file
    have hlength : (verdicts compiler tags a).length = (extract tags a).length := List.length_map _
    rw [List.length_append, hlength] at hfound htransform
    rw [hextract, List.getElem?_append_right (Nat.le_add_right _ _), Nat.add_sub_cancel_left,
      List.getElem?_map, hat] at hfound
    obtain rfl := Option.some.inj hfound
    refine ⟨_, _, rfl, rfl, ?_⟩
    have hindex : (((extract tags a).length + before.length : Nat) : Int) =
        before.length + (extract tags a).length := by omega
    have hline : ((1 + Text.countLines (a ++ b.take fragment.start) : Nat) : Int) =
        (1 + Text.countLines (b.take fragment.start) : Nat) + Text.countLines a := by
      rw [Text.countLines_append]
      omega
    have hstart : (fragment.shift a.length).start = a.length + fragment.start := Nat.add_comm ..
    rw [htransform, hstart, List.take_length_add_append]
    simp only [locate, hindex, hline]

/-- A cut between two characters that both markers could begin with, and a rejection after it. -/
theorem transform_append_of_rejecting :
    ∃ compiler : Compiler, compiler.Plain ∧
      Text.SafeCut "<<".toList "\n<<p<>q<".toList ">\n<<r".toList ∧
      extract ⟨"<<".toList, "<>".toList, [], []⟩ "\n<<p<>q<>\n<<r".toList =
        [⟨['p'], true, 1, 6⟩, ⟨['r'], false, 10, 13⟩] ∧
      ∃ fault, transform compiler ⟨"<<".toList, "<>".toList, [], []⟩ "f".toList
          "\n<<p<>q<>\n<<r".toList = .error (.fragment fault) ∧
        fault.index = 1 ∧ fault.line = some 3 := by
  let compiler : Compiler := ⟨"Rejecting", [], fun source =>
    if source = ['r'] then .error (.rejected .general "no") else .ok (.text source)⟩
  have hplain : compiler.Plain := by
    intro source
    by_cases h : source = ['r']
    · exact .inr ⟨.general, "no", if_pos h⟩
    · exact .inl ⟨source, if_neg h⟩
  have hcut : Text.SafeCut "<<".toList "\n<<p<>q<".toList ">\n<<r".toList := by decide
  have hfirst : extract ⟨"<<".toList, "<>".toList, [], []⟩ "\n<<p<>q<".toList =
      [⟨['p'], true, 1, 6⟩] := by cbv
  have hsecond : extract ⟨"<<".toList, "<>".toList, [], []⟩ ">\n<<r".toList =
      [⟨['r'], false, 2, 5⟩] := by cbv
  have ho : (Tags.mk "<<".toList "<>".toList [] []).openTag ≠ [] := by decide
  obtain ⟨hextract, -, -, hrejected⟩ := transform_append hplain ho
    (by rw [hfirst]; decide) hcut "f".toList
  have ha : transform compiler ⟨"<<".toList, "<>".toList, [], []⟩ "f".toList
      "\n<<p<>q<".toList = .ok "\npq<".toList := by cbv
  have hb : transform compiler ⟨"<<".toList, "<>".toList, [], []⟩ "f".toList
      ">\n<<r".toList = .error (.fragment ⟨"no", 0, some 2, some "f".toList, some .general⟩) := by
    cbv
  obtain ⟨fault, line, hfault, hline, hboth⟩ := hrejected _ _ ha hb
  obtain rfl := Failure.fragment.inj hfault
  obtain rfl := Option.some.inj hline
  rw [hfirst, hsecond] at hextract
  rw [hfirst] at hboth
  exact ⟨compiler, hplain, hcut, hextract, _, hboth, rfl, rfl⟩

end Inlay
