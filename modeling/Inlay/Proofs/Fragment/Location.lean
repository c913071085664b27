import Inlay.Proofs.Fragment.Rejection
import Inlay.Proofs.Fragment.Rewriting
import Mathlib

/-!
# Where a text is rejected

A transformation asks its compiler about the fragments of a text, one after the other, and ends with
the first one that is rejected. The failure says which fragment that is and on which line it begins
(`rejection_located`). The compiler may keep a state of its own, so that its answers may change.
-/

namespace Inlay

/-! ### The place of a fragment -/

theorem Text.countLines_append (a b : Text) :
    Text.countLines (a ++ b) = Text.countLines a + Text.countLines b :=
  List.count_append

theorem place_append (tags : Tags) (offset : Nat) (xs ys : List Segment) :
    place tags offset (xs ++ ys) =
      place tags offset xs ++ place tags (offset + (xs.flatMap (·.text tags)).length) ys := by
  induction xs generalizing offset with
  | nil => simp [place]
  | cons s xs ih =>
    simp only [List.cons_append, place, ih, List.flatMap_cons, Segment.text, List.length_append,
      Nat.add_assoc]

theorem length_place (tags : Tags) (offset : Nat) (segments : List Segment) :
    (place tags offset segments).length = segments.length := by
  simpa using congrArg List.length (map_inner_place tags offset segments)

/-- A fragment begins after the gap of its segment. -/
theorem exists_fragment_of_segments {tags : Tags} {text : Text} {lead rest : List Segment}
    {segment : Segment} (h : (segments tags text).1 = lead ++ segment :: rest) :
    ∃ fragment, (extract tags text)[lead.length]? = some fragment ∧
      text.take fragment.start = lead.flatMap (·.text tags) ++ segment.gap := by
  have hat : (extract tags text)[lead.length]? = (place tags
      (lead.flatMap (·.text tags)).length (segment :: rest))[0]? := by
    rw [extract, h, place_append, List.getElem?_append_right (length_place ..).le, length_place,
      Nat.sub_self, Nat.zero_add]
  refine ⟨_, hat.trans List.getElem?_cons_zero, ?_⟩
  have hjoin := join_segments tags text
  rw [h, List.flatMap_append, List.flatMap_cons, Segment.text] at hjoin
  rw [← hjoin, ← List.length_append]
  simp only [List.append_assoc]
  rw [← List.append_assoc, List.take_left]

/-! ### Compilers with a state -/

section
variable {σ : Type} (call : Text → StateM σ (Except Failure Value))

/-- The answers to some texts, one after the other, whether or not they are rejected. -/
def answers (state : σ) : List Text → List (Except Failure Value)
  | [] => []
  | source :: rest => ((call source).run state).1 :: answers ((call source).run state).2 rest

/-- A compiler that writes down what it is asked about. -/
def noting (source : Text) : StateM (σ × List Text) (Except Failure Value) := fun s =>
  (((call source).run s.1).1, ((call source).run s.1).2, s.2 ++ [source])

variable {call} {tags : Tags} {file : Path}

theorem run_compileSegments_noting_cons (s : Segment) (rest : List Segment) (state : σ)
    (asked : List Text) (index line : Nat) :
    (compileSegments (noting call) tags file index line (s :: rest)).run (state, asked) =
      match (call s.inner).run state with
      | (.error f, state) =>
        (.error (locate file index (line + Text.countLines s.gap) f), state, asked ++ [s.inner])
      | (.ok output, state) =>
        let (more, after) := (compileSegments (noting call) tags file (index + 1)
          (line + Text.countLines s.gap + Text.countLines (s.body tags.openTag tags.closeTag))
          rest).run (state, asked ++ [s.inner])
        (more.map (⟨s.gap, output, s.closed⟩ :: ·), after) := by
  have hnoting : (noting call s.inner).run (state, asked) =
      (((call s.inner).run state).1, ((call s.inner).run state).2, asked ++ [s.inner]) := rfl
  rw [compileSegments, StateT.run_bind, hnoting]
  cases (call s.inner).run state with
  | mk answer state =>
    cases answer with
    | error f => rfl
    | ok output => rfl

/-- Without a rejection every segment is asked about, and the answers are the outputs. -/
theorem exists_run_of_accepted {segments : List Segment} {state : σ}
    (h : ∀ f, .error f ∉ answers call state (segments.map (·.inner))) (tags : Tags) (file : Path)
    (asked : List Text) (index line : Nat) :
    ∃ rendered after, (compileSegments (noting call) tags file index line segments).run
        (state, asked) = (.ok rendered, after, asked ++ segments.map (·.inner)) ∧
      ∀ r ∈ rendered, .ok r.output ∈ answers call state (segments.map (·.inner)) := by
  induction segments generalizing state asked index line with
  | nil => exact ⟨[], state, by rw [List.map_nil, List.append_nil]; rfl, by simp⟩
  | cons s rest ih =>
    rw [List.map_cons, answers] at h ⊢
    rw [run_compileSegments_noting_cons]
    cases hs : (call s.inner).run state with
    | mk answer next =>
      rw [hs] at h
      cases answer with
      | error f => exact absurd (List.mem_cons_self ..) (h f)
      | ok output =>
        obtain ⟨rendered, after, hrun, houtputs⟩ := ih (fun f hf => h f (List.mem_cons_of_mem _ hf))
          (asked ++ [s.inner]) (index + 1)
          (line + Text.countLines s.gap + Text.countLines (s.body tags.openTag tags.closeTag))
        simp only [hrun]
        refine ⟨_, after, by rw [List.append_assoc]; rfl, fun r hr => ?_⟩
        rcases List.mem_cons.1 hr with rfl | hr
        · exact List.mem_cons_self ..
        · exact List.mem_cons_of_mem _ (houtputs r hr)

/-- The first rejection is located by the segments before it, and nothing is asked after it. -/
theorem exists_run_of_rejected {segments : List Segment} {state : σ}
    {before after : List (Except Failure Value)} {f : Failure}
    (h : answers call state (segments.map (·.inner)) = before ++ .error f :: after)
    (hbefore : ∀ g, .error g ∉ before) (tags : Tags) (file : Path) (asked : List Text)
    (index line : Nat) :
    ∃ lead segment rest state', segments = lead ++ segment :: rest ∧
      lead.length = before.length ∧
      (compileSegments (noting call) tags file index line segments).run (state, asked) =
        (.error (locate file (index + before.length)
          (line + Text.countLines (lead.flatMap (·.text tags) ++ segment.gap)) f),
          state', asked ++ (lead ++ [segment]).map (·.inner)) := by
  induction segments generalizing state before asked index line with
  | nil => simp [answers] at h
  | cons s rest ih =>
    rw [List.map_cons, answers] at h
    rw [run_compileSegments_noting_cons]
    cases hs : (call s.inner).run state with
    | mk answer next =>
      rw [hs] at h
      cases before with
      | nil =>
        obtain ⟨rfl, _⟩ := List.cons.inj h
        exact ⟨[], s, rest, next, rfl, rfl, rfl⟩
      | cons a before =>
        obtain ⟨rfl, hrest⟩ := List.cons.inj h
        cases answer with
        | error g => exact absurd (List.mem_cons_self ..) (hbefore g)
        | ok output =>
          obtain ⟨lead, segment, more, state', rfl, hlength, hrun⟩ := ih hrest
            (fun g hg => hbefore g (List.mem_cons_of_mem _ hg)) (asked ++ [s.inner]) (index + 1)
            (line + Text.countLines s.gap + Text.countLines (s.body tags.openTag tags.closeTag))
          refine ⟨s :: lead, segment, more, state', rfl, by simp [hlength], ?_⟩
          have hindex : index + 1 + before.length = index + (before.length + 1) := by omega
          have hline : line + Text.countLines s.gap +
              Text.countLines (s.body tags.openTag tags.closeTag) +
                Text.countLines (lead.flatMap (·.text tags) ++ segment.gap) =
              line + Text.countLines ((s :: lead).flatMap (·.text tags) ++ segment.gap) := by
            simp only [List.flatMap_cons, Segment.text, Text.countLines_append]
            omega
          simp only [hrun, hindex, hline, List.append_assoc]
          rfl

/-- Writing down what is asked changes nothing else. -/
theorem run_compileSegments_noting (segments : List Segment) (state : σ) (asked : List Text)
    (index line : Nat) :
    ((compileSegments (noting call) tags file index line segments).run (state, asked)).1 =
      ((compileSegments call tags file index line segments).run state).1 := by
  induction segments generalizing state asked index line with
  | nil => rfl
  | cons s rest ih =>
    rw [run_compileSegments_noting_cons, compileSegments, StateT.run_bind]
    cases (call s.inner).run state with
    | mk answer next =>
      cases answer with
      | error f => rfl
      | ok output => exact congrArg (Except.map _) (ih next ..)

theorem run_compileSegments_pure {compiler : Compiler}
    (hcall : ∀ source, call source = pure (compiler.compile source)) (segments : List Segment)
    (state : σ) (index line : Nat) :
    ((compileSegments call tags file index line segments).run state).1 =
      Id.run (compileSegments (m := Id) (fun source => pure (compiler.compile source)) tags file
        index line segments) := by
  induction segments generalizing index line with
  | nil => rfl
  | cons s rest ih =>
    rw [compileSegments, compileSegments, StateT.run_bind, hcall, Id.run_bind, Id.run_pure]
    cases compiler.compile s.inner with
    | error f => rfl
    | ok output => exact congrArg (Except.map _) (ih ..)

theorem answers_pure {compiler : Compiler}
    (hcall : ∀ source, call source = pure (compiler.compile source)) (sources : List Text)
    (state : σ) : answers call state sources = sources.map compiler.compile := by
  induction sources with
  | nil => rfl
  | cons source rest ih =>
    rw [answers, List.map_cons, hcall]
    exact congrArg _ ih

theorem run_transformWith (call : Text → StateM σ (Except Failure Value)) (text : Text)
    (state : σ) :
    (transformWith call tags file text).run state =
      (((compileSegments call tags file 0 1 (segments tags text).1).run state).1.bind
          fun rendered => joinParts 0
            (rendered.flatMap (·.parts tags) ++ [.text (segments tags text).2]),
        ((compileSegments call tags file 0 1 (segments tags text).1).run state).2) := rfl

theorem run_transformWith_noting (text : Text) (state : σ) (asked : List Text) :
    ((transformWith (noting call) tags file text).run (state, asked)).1 =
      ((transformWith call tags file text).run state).1 := by
  rw [run_transformWith, run_transformWith, run_compileSegments_noting]

theorem run_transformWith_pure {compiler : Compiler}
    (hcall : ∀ source, call source = pure (compiler.compile source)) (text : Text) (state : σ) :
    ((transformWith call tags file text).run state).1 = transform compiler tags file text := by
  rw [run_transformWith, run_compileSegments_pure hcall]
  rfl

end

/-! ### The place of a rejection -/

/-- What a compiler answers that knows nothing of places: a text, or a rejection without a line and
without a file. -/
inductive Placeless : Except Failure Value → Prop
  | text (t : Text) : Placeless (.ok (.text t))
  | rejected (kind : RejectionKind) (reason : String) : Placeless (.error (.rejected kind reason))
  | fragment (f : FragmentFault) (hline : f.line = none) (hfile : f.file = none) :
    Placeless (.error (.fragment f))

theorem Placeless.exists_located {f : Failure} (h : Placeless (.error f)) (file : Path)
    (index line : Nat) :
    ∃ fault, locate file index line f = .fragment fault ∧ fault.index = index ∧
      fault.line = some (line : Int) ∧ (file ≠ [] → fault.file = some file) := by
  cases h with
  | rejected kind reason => exact ⟨_, rfl, rfl, rfl, fun hne => by simp [hne]⟩
  | fragment fault hline hfile =>
    have hlocate : locate file index line (.fragment fault) = .fragment { fault with
        index := index, line := some line, file := if file.isEmpty then none else some file } := by
      cases file <;> simp [locate, hline, hfile]
    exact ⟨_, hlocate, rfl, rfl, fun hne => by simp [hne]⟩

theorem Placeless.isText {value : Value} (h : Placeless (.ok value)) : value.IsText := by
  cases h with
  | text t => exact ⟨t, rfl⟩

theorem exists_joinParts_of_placeless (tags : Tags) {rendered : List Rendered}
    (h : ∀ r ∈ rendered, Placeless (.ok r.output)) (tail : Text) :
    ∃ t, joinParts 0 (rendered.flatMap (·.parts tags) ++ [.text tail]) = .ok t := by
  refine joinParts_of_isText (fun p hp => ?_) 0
  rcases List.mem_append.1 hp with hp | hp
  · obtain ⟨r, hr, hp⟩ := List.mem_flatMap.1 hp
    exact isText_of_mem_parts (h r hr).isText hp
  · exact ⟨_, List.mem_singleton.1 hp⟩

section
variable {σ : Type} {call : Text → StateM σ (Except Failure Value)}
  (hcall : ∀ source state, Placeless ((call source).run state).1)
include hcall

theorem placeless_of_mem_answers {sources : List Text} {state : σ}
    {answer : Except Failure Value} (h : answer ∈ answers call state sources) :
    Placeless answer := by
  induction sources generalizing state with
  | nil => simp [answers] at h
  | cons source rest ih =>
    rw [answers] at h
    rcases List.mem_cons.1 h with rfl | h
    · exact hcall source state
    · exact ih h

/-- If nothing is rejected, the compiler is asked about every fragment. -/
theorem run_of_accepted (tags : Tags) (file : Path) (text : Text) (state : σ)
    (h : ∀ f, .error f ∉ answers call state ((extract tags text).map (·.inner))) :
    ∃ t after, (transformWith (noting call) tags file text).run (state, []) =
      (.ok t, after, (extract tags text).map (·.inner)) := by
  rw [extract, map_inner_place] at h ⊢
  obtain ⟨rendered, after, hrun, houtputs⟩ := exists_run_of_accepted h tags file [] 0 1
  obtain ⟨t, ht⟩ := exists_joinParts_of_placeless tags
    (fun r hr => placeless_of_mem_answers hcall (houtputs r hr)) (segments tags text).2
  refine ⟨t, after, ?_⟩
  rw [run_transformWith, hrun]
  exact congrArg (·, after, _) ht

end

/-- The first rejection ends the transformation, and nothing is asked after it. -/
theorem run_of_rejected {σ : Type} {call : Text → StateM σ (Except Failure Value)} {tags : Tags}
    {text : Text} {state : σ} {before after : List (Except Failure Value)} {f : Failure}
    (h : answers call state ((extract tags text).map (·.inner)) = before ++ .error f :: after)
    (hbefore : ∀ g, .error g ∉ before) (file : Path) :
    ∃ fragment state', (extract tags text)[before.length]? = some fragment ∧
      (transformWith (noting call) tags file text).run (state, []) =
        (.error (locate file before.length (1 + Text.countLines (text.take fragment.start)) f),
          state', ((extract tags text).take (before.length + 1)).map (·.inner)) := by
  have hinner := map_inner_place tags 0 (segments tags text).1
  rw [← extract] at hinner
  rw [hinner] at h
  obtain ⟨lead, segment, rest, state', hsegments, hlength, hrun⟩ :=
    exists_run_of_rejected h hbefore tags file [] 0 1
  obtain ⟨fragment, hat, hstart⟩ := exists_fragment_of_segments hsegments
  have hasked : ((extract tags text).take (before.length + 1)).map (·.inner) =
      (lead ++ [segment]).map (·.inner) := by
    have hlead : lead ++ segment :: rest = (lead ++ [segment]) ++ rest := by simp
    rw [List.map_take, hinner, hsegments, hlead, ← List.map_take,
      List.take_left' (by simp [hlength])]
  refine ⟨fragment, state', hlength ▸ hat, ?_⟩
  rw [run_transformWith, hrun, hstart, hasked, Nat.zero_add]
  rfl

theorem exists_first_rejection {given : List (Except Failure Value)} {f : Failure}
    (h : .error f ∈ given) :
    ∃ before g after, given = before ++ .error g :: after ∧ ∀ g, .error g ∉ before := by
  induction given with
  | nil => simp at h
  | cons answer given ih =>
    cases answer with
    | error g => exact ⟨[], g, given, rfl, fun _ => List.not_mem_nil⟩
    | ok value =>
      obtain ⟨before, g, after, rfl, hbefore⟩ := ih (by simpa using h)
      exact ⟨.ok value :: before, g, after, rfl, fun g hg => hbefore g (by simpa using hg)⟩

/-- The compiler is asked about one fragment after the other until it rejects one, and about all of
them if it rejects none. The first rejection ends the transformation, with the position of its
fragment, the line on which the fragment begins and the file. -/
theorem rejection_located {σ : Type} {call : Text → StateM σ (Except Failure Value)}
    (hcall : ∀ source state, Placeless ((call source).run state).1) (tags : Tags) (file : Path)
    (text : Text) (state : σ) :
    let fragments := extract tags text
    let given := answers call state (fragments.map (·.inner))
    let run := (transformWith (noting call) tags file text).run (state, [])
    run.1 = ((transformWith call tags file text).run state).1 ∧
    (∀ compiler : Compiler, (∀ source, call source = pure (compiler.compile source)) →
      run.1 = transform compiler tags file text ∧
      given = fragments.map fun f => compiler.compile f.inner) ∧
    ((∃ f, run.1 = .error f) ↔ ∃ f, .error f ∈ given) ∧
    ((∀ f, .error f ∉ given) → run.2.2 = fragments.map (·.inner)) ∧
    ∀ before f after, given = before ++ .error f :: after → (∀ g, .error g ∉ before) →
      ∃ fragment fault, fragments[before.length]? = some fragment ∧
        run.1 = .error (.fragment fault) ∧ fault.index = before.length ∧
        fault.line = some ((1 + Text.countLines (text.take fragment.start) : Nat) : Int) ∧
        (file ≠ [] → fault.file = some file) ∧
        run.2.2 = (fragments.take (before.length + 1)).map (·.inner) := by
  intro fragments given run
  have hsame : run.1 = ((transformWith call tags file text).run state).1 :=
    run_transformWith_noting text state []
  refine ⟨hsame, fun compiler hpure => ⟨hsame.trans (run_transformWith_pure hpure text state), ?_⟩,
    ⟨?_, ?_⟩, fun h => ?_, fun before f after h hbefore => ?_⟩
  · exact (answers_pure hpure _ state).trans List.map_map
  · rintro ⟨f, hf⟩
    by_contra! hnone
    obtain ⟨t, after, hrun⟩ := run_of_accepted hcall tags file text state hnone
    rw [show run = _ from hrun] at hf
    simp at hf
  · rintro ⟨f, hf⟩
    obtain ⟨before, g, after, hgiven, hbefore⟩ := exists_first_rejection hf
    obtain ⟨_, _, _, hrun⟩ := run_of_rejected hgiven hbefore file
    exact ⟨_, congrArg Prod.fst hrun⟩
  · obtain ⟨t, after, hrun⟩ := run_of_accepted hcall tags file text state h
    exact congrArg (·.2.2) hrun
  · obtain ⟨fragment, _, hat, hrun⟩ := run_of_rejected h hbefore file
    have hmem : .error f ∈ given := by rw [h]; simp
    obtain ⟨fault, hlocate, hindex, hline, hfile⟩ := (placeless_of_mem_answers hcall
      hmem).exists_located file before.length (1 + Text.countLines (text.take fragment.start))
    rw [hlocate] at hrun
    exact ⟨fragment, fault, hat, congrArg Prod.fst hrun, hindex, hline, hfile,
      congrArg (·.2.2) hrun⟩

/-- A compiler that rejects what it is asked second, of three. -/
def rejectingSecond (source : Text) : StateM Nat (Except Failure Value) := fun count =>
  (if count = 1 then .error (.rejected .general "no") else .ok (.text source), count + 1)

theorem rejection_located_of_second :
    (∀ source state, Placeless ((rejectingSecond source).run state).1) ∧
    ∃ fragment fault, (extract ⟨['<'], ['>'], ['['], [']']⟩ "a\n<x>\n<y>z<w".toList)[1]? =
        some fragment ∧ fragment.inner = ['y'] ∧
      ((transformWith (noting rejectingSecond) ⟨['<'], ['>'], ['['], [']']⟩ "f".toList
        "a\n<x>\n<y>z<w".toList).run (0, [])).1 = .error (.fragment fault) ∧
      fault.index = 1 ∧ fault.line = some 3 ∧ fault.file = some "f".toList ∧
      ((transformWith (noting rejectingSecond) ⟨['<'], ['>'], ['['], [']']⟩ "f".toList
        "a\n<x>\n<y>z<w".toList).run (0, [])).2.2 = [['x'], ['y']] := by
  have hcall : ∀ source state, Placeless ((rejectingSecond source).run state).1 := by
    intro source state
    by_cases h : state = 1
    · rw [h]
      exact .rejected .general "no"
    · have hanswer : ((rejectingSecond source).run state).1 = .ok (.text source) := if_neg h
      exact hanswer ▸ .text source
  have hextract : extract ⟨['<'], ['>'], ['['], [']']⟩ "a\n<x>\n<y>z<w".toList =
      [⟨['x'], true, 2, 5⟩, ⟨['y'], true, 6, 9⟩, ⟨['w'], false, 10, 12⟩] := by cbv
  obtain ⟨_, _, _, _, hfirst⟩ := rejection_located hcall ⟨['<'], ['>'], ['['], [']']⟩ "f".toList
    "a\n<x>\n<y>z<w".toList 0
  rw [hextract] at hfirst ⊢
  obtain ⟨fragment, fault, hat, hrun, hindex, hline, hfile, hasked⟩ :=
    hfirst [.ok (.text ['x'])] (.rejected .general "no") [.ok (.text ['w'])] rfl (by simp)
  obtain rfl := Option.some.inj hat
  exact ⟨hcall, _, fault, rfl, rfl, hrun, hindex, hline, hfile (by simp), hasked⟩

end Inlay
