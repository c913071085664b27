import Inlay.Fragment.Transform

/-!
# Rejected texts

A compiler that gives texts makes a transformation fail only with a failure of its own, put in its
place (`transform_of_gives`). So a compiler that only rejects fragments makes it fail with a
rejected fragment, and one that fails as a file may fail makes it fail so too. A compiler that never
fails may still give something that is no text (`exists_notText_of_transform`).
-/

namespace Inlay

def Value.IsText (value : Value) : Prop :=
  ∃ t, value = .text t

def Failure.IsRejection (f : Failure) : Prop :=
  (∃ kind text, f = .rejected kind text) ∨ ∃ fault, f = .fragment fault

/-- A compiler that gives texts and fails by rejecting what it is given. -/
def Compiler.GivesText (compiler : Compiler) : Prop :=
  ∀ source, match compiler.compile source with
    | .ok value => value.IsText
    | .error f => f.IsRejection

/-- A compiler that gives texts and has only failures of a kind. -/
def Compiler.Gives (compiler : Compiler) (kind : Failure → Prop) : Prop :=
  ∀ source, match compiler.compile source with
    | .ok value => value.IsText
    | .error f => kind f

/-- A compiler that gives texts and fails only in ways in which a file may fail. -/
def Compiler.FailsAsFile (compiler : Compiler) : Prop :=
  compiler.Gives fun f => f.isOfFile = true

theorem Failure.IsRejection.locate {f : Failure} (h : f.IsRejection) (file : Path)
    (index line : Nat) : ∃ fault, locate file index line f = .fragment fault := by
  rcases h with ⟨kind, text, rfl⟩ | ⟨fault, rfl⟩
  · exact ⟨_, rfl⟩
  · exact ⟨_, rfl⟩

theorem isOfFile_locate {f : Failure} (h : f.isOfFile = true) (file : Path) (index line : Nat) :
    (locate file index line f).isOfFile = true := by
  cases f with
  | fragment fault => rfl
  | rejected kind text => rfl
  | _ => exact h

/-- A failure is one of the compiler, put in its place. -/
theorem exists_located_of_compileSegments {compiler : Compiler} {tags : Tags} {file : Path}
    {segments : List Segment} {index line : Nat} {g : Failure}
    (h : Id.run (compileSegments (m := Id) (fun source => pure (compiler.compile source)) tags file
      index line segments) = .error g) :
    ∃ source f place row, compiler.compile source = .error f ∧ g = locate file place row f := by
  induction segments generalizing index line with
  | nil => simp [compileSegments] at h
  | cons s rest ih =>
    simp only [compileSegments, Id.run_bind, Id.run_pure] at h
    cases hcomp : compiler.compile s.inner with
    | error f =>
      rw [hcomp] at h
      exact ⟨s.inner, f, _, _, hcomp, (Except.error.inj h).symm⟩
    | ok output =>
      rw [hcomp] at h
      simp only [Id.run_bind, Id.run_pure] at h
      cases hmore : Id.run (compileSegments (m := Id) (fun source => pure (compiler.compile source))
          tags file (index + 1) (line + Text.countLines s.gap +
            Text.countLines (s.body tags.openTag tags.closeTag)) rest) with
      | error g' =>
        rw [hmore] at h
        obtain rfl : g' = g := Except.error.inj h
        exact ih hmore
      | ok rendered =>
        rw [hmore] at h
        simp [Except.map] at h

theorem joinParts_of_isText {parts : List Value} (h : ∀ p ∈ parts, p.IsText) (index : Nat) :
    ∃ t, joinParts index parts = .ok t := by
  induction parts generalizing index with
  | nil => exact ⟨[], rfl⟩
  | cons p parts ih =>
    obtain ⟨t, rfl⟩ := h p (List.mem_cons_self ..)
    obtain ⟨rest, hrest⟩ := ih (fun q hq => h q (List.mem_cons_of_mem _ hq)) (index + 1)
    exact ⟨t ++ rest, by rw [joinParts, hrest]; rfl⟩

theorem exists_notText_of_joinParts {parts : List Value} {index : Nat} {f : Failure}
    (h : joinParts index parts = .error f) : ∃ place typeName, f = .notText place typeName := by
  induction parts generalizing index with
  | nil => simp [joinParts] at h
  | cons p parts ih =>
    cases p with
    | text t =>
      cases hrest : joinParts (index + 1) parts with
      | ok rest => simp [joinParts, hrest, Except.map] at h
      | error g =>
        simp only [joinParts, hrest, Except.map, Except.error.injEq] at h
        rw [h] at hrest
        exact ih hrest
    | _ =>
      simp only [joinParts, Except.error.injEq] at h
      exact ⟨_, _, h.symm⟩

theorem isText_of_mem_parts {tags : Tags} {r : Rendered} (h : r.output.IsText) {p : Value}
    (hp : p ∈ r.parts tags) : p.IsText := by
  simp only [Rendered.parts, List.mem_append, List.mem_cons, List.not_mem_nil, or_false] at hp
  rcases hp with (rfl | rfl | rfl) | hp
  · exact ⟨_, rfl⟩
  · exact ⟨_, rfl⟩
  · exact h
  · split at hp
    · exact ⟨_, List.mem_singleton.1 hp⟩
    · simp at hp

theorem isText_of_compileSegments {compiler : Compiler} {kind : Failure → Prop}
    (hc : compiler.Gives kind) {tags : Tags} {file : Path} {segments : List Segment}
    {index line : Nat} {rendered : List Rendered}
    (h : Id.run (compileSegments (m := Id) (fun source => pure (compiler.compile source)) tags file
      index line segments) = .ok rendered) : ∀ r ∈ rendered, r.output.IsText := by
  induction segments generalizing index line rendered with
  | nil =>
    obtain rfl : [] = rendered := Except.ok.inj h
    simp
  | cons s rest ih =>
    have hs := hc s.inner
    simp only [compileSegments, Id.run_bind, Id.run_pure] at h
    cases hcomp : compiler.compile s.inner with
    | error f =>
      rw [hcomp] at h
      simp at h
    | ok output =>
      rw [hcomp] at hs h
      simp only [Id.run_bind, Id.run_pure] at h
      cases hmore : Id.run (compileSegments (m := Id) (fun source => pure (compiler.compile source))
          tags file (index + 1) (line + Text.countLines s.gap +
            Text.countLines (s.body tags.openTag tags.closeTag)) rest) with
      | error f =>
        rw [hmore] at h
        simp [Except.map] at h
      | ok more =>
        rw [hmore] at h
        obtain rfl := Except.ok.inj h
        exact List.forall_mem_cons.2 ⟨hs, ih hmore⟩

/-- A transformation fails with a failure of the compiler, put in its place, or with a value that is
no text. -/
theorem error_of_transform {compiler : Compiler} {tags : Tags} {file : Path} {text : Text}
    {g : Failure} (h : transform compiler tags file text = .error g) :
    (∃ source f place row, compiler.compile source = .error f ∧ g = locate file place row f) ∨
      ∃ place typeName, g = .notText place typeName := by
  simp only [transform, transformWith, Id.run_bind, Id.run_pure] at h
  cases hrun : Id.run (compileSegments (m := Id) (fun source => pure (compiler.compile source))
      tags file 0 1 (segments tags text).1) with
  | error g' =>
    rw [hrun] at h
    obtain rfl : g' = g := Except.error.inj h
    exact Or.inl (exists_located_of_compileSegments hrun)
  | ok rendered =>
    rw [hrun] at h
    exact Or.inr (exists_notText_of_joinParts h)

theorem transform_of_gives {compiler : Compiler} {kind located : Failure → Prop}
    (hc : compiler.Gives kind)
    (hl : ∀ f file index line, kind f → located (locate file index line f)) {tags : Tags}
    {file : Path} {text : Text} {f : Failure}
    (h : transform compiler tags file text = .error f) : located f := by
  simp only [transform, transformWith, Id.run_bind, Id.run_pure] at h
  cases hrun : Id.run (compileSegments (m := Id) (fun source => pure (compiler.compile source))
      tags file 0 1 (segments tags text).1) with
  | error g =>
    rw [hrun] at h
    obtain rfl : g = f := Except.error.inj h
    obtain ⟨source, f, place, row, hf, rfl⟩ := exists_located_of_compileSegments hrun
    have hkind := hc source
    rw [hf] at hkind
    exact hl f file place row hkind
  | ok rendered =>
    rw [hrun] at h
    have hparts : ∀ p ∈ rendered.flatMap (·.parts tags) ++ [.text (segments tags text).2],
        p.IsText := by
      intro p hp
      rcases List.mem_append.1 hp with hp | hp
      · obtain ⟨r, hr, hp⟩ := List.mem_flatMap.1 hp
        exact isText_of_mem_parts (isText_of_compileSegments hc hrun r hr) hp
      · exact ⟨_, List.mem_singleton.1 hp⟩
    obtain ⟨t, ht⟩ := joinParts_of_isText hparts 0
    simp [Except.bind, ht] at h

/-- A compiler that gives texts makes a transformation fail only with a rejected fragment. -/
theorem exists_fragment_of_transform {compiler : Compiler} (hc : compiler.GivesText) {tags : Tags}
    {file : Path} {text : Text} {f : Failure} (h : transform compiler tags file text = .error f) :
    ∃ fault, f = .fragment fault :=
  @transform_of_gives compiler Failure.IsRejection (fun f => ∃ fault, f = .fragment fault) hc
    (fun _ file index line hf => hf.locate file index line) _ _ _ _ h

theorem isOfFile_of_transform {compiler : Compiler} (hc : compiler.FailsAsFile) {tags : Tags}
    {file : Path} {text : Text} {f : Failure} (h : transform compiler tags file text = .error f) :
    f.isOfFile = true :=
  @transform_of_gives compiler (fun f => f.isOfFile = true) (fun f => f.isOfFile = true) hc
    (fun _ file index line hf => isOfFile_locate hf file index line) _ _ _ _ h

/-! ### Compilers that never fail -/

/-- A compiler that has a value for every text, which need not be a text. -/
def Compiler.Total (compiler : Compiler) : Prop :=
  ∀ source, ∃ value, compiler.compile source = .ok value

/-- A compiler that never fails makes a transformation fail only with a value that is no text. -/
theorem exists_notText_of_transform {compiler : Compiler} (hc : compiler.Total) {tags : Tags}
    {file : Path} {text : Text} {f : Failure} (h : transform compiler tags file text = .error f) :
    ∃ place typeName, f = .notText place typeName := by
  rcases error_of_transform h with ⟨source, g, place, row, hg, _⟩ | hvalue
  · obtain ⟨value, hvalue⟩ := hc source
    simp [hvalue] at hg
  · exact hvalue

/-! ### Compilers that stay -/

/-- A compiler that may fail in any way but to leave the interpreter. -/
def Compiler.Stays (compiler : Compiler) : Prop :=
  ∀ source f, compiler.compile source = .error f → f.leaves = false

theorem Compiler.stays_passthrough : Compiler.passthrough.Stays :=
  fun _ _ h => by simp [passthrough] at h

theorem leaves_locate (f : Failure) (file : Path) (index line : Nat) :
    (locate file index line f).leaves = f.leaves := by
  cases f <;> rfl

theorem leaves_of_transform {compiler : Compiler} (hc : compiler.Stays) {tags : Tags}
    {file : Path} {text : Text} {f : Failure} (h : transform compiler tags file text = .error f) :
    f.leaves = false := by
  rcases error_of_transform h with ⟨source, g, place, row, hg, rfl⟩ | ⟨place, typeName, rfl⟩
  · rw [leaves_locate]
    exact hc source g hg
  · rfl

end Inlay
