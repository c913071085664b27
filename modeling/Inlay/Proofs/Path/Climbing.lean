import Inlay.Proofs.Path.Components

/-!
# Where a path leads by its text

A path in absolute form is climbed piece by piece. What comes after a root only adds names as long
as it never climbs above its own start (`climb_over`), and then the path is strictly below the root.
-/

namespace Inlay.Path

/-- The names of a path in absolute form go on from those of the root. -/
def Within (cwd root path : Path) : Prop :=
  ∃ way, way ≠ [] ∧ components (absolute cwd path) = components (absolute cwd root) ++ way

theorem within_iff {cwd root path : Path} :
    Within cwd root path ↔ components (absolute cwd root) <+: components (absolute cwd path) ∧
      components (absolute cwd root) ≠ components (absolute cwd path) := by
  constructor
  · rintro ⟨way, hne, hway⟩
    exact ⟨⟨way, hway.symm⟩, fun he => hne (by simpa [he] using hway)⟩
  · rintro ⟨⟨way, hway⟩, hne⟩
    exact ⟨way, fun hz => hne (by rw [← hway, hz, List.append_nil]), hway.symm⟩

instance (cwd root path : Path) : Decidable (Within cwd root path) :=
  decidable_of_iff _ within_iff.symm

/-- The normal form of a relative path that leads below its start. -/
def Descends (relative : Path) : Prop :=
  climb false [] (Text.split '/' relative) ≠ [] ∧
    (climb false [] (Text.split '/' relative)).head? ≠ some above

instance (relative : Path) : Decidable (Descends relative) :=
  inferInstanceAs (Decidable (_ ∧ _))

/-! ### Climbing -/

theorem climb_append (rooted : Bool) (done xs ys : List Text) :
    climb rooted done (xs ++ ys) = climb rooted (climb rooted done xs).reverse ys := by
  induction xs generalizing done with
  | nil => simp [climb]
  | cons c xs ih =>
    simp only [List.cons_append, climb]
    split
    · exact ih done
    · split
      · cases done with
        | nil => exact ih _
        | cons d ds => exact ih _
      · exact ih _

theorem climb_plain (rooted : Bool) (done ps : List Text) (h : above ∉ ps) :
    climb rooted done ps = done.reverse ++ ps.filter fun c => !(c.isEmpty || c == here) := by
  induction ps generalizing done with
  | nil => simp [climb]
  | cons c ps ih =>
    simp only [List.mem_cons, not_or] at h
    simp only [climb]
    by_cases hc : c.isEmpty = true ∨ c = here
    · have hf : (!(c.isEmpty || c == here)) = false := by
        rcases hc with hc | hc <;> simp [hc]
      rw [if_pos hc, ih done h.2]
      simp only [List.filter_cons, hf, Bool.false_eq_true, if_false]
    · have hf : (!(c.isEmpty || c == here)) = true := by
        simp only [not_or, Bool.not_eq_true] at hc
        simp [hc.1, hc.2]
      rw [if_neg hc, if_neg (Ne.symm h.1), ih _ h.2]
      simp only [List.filter_cons, hf, if_true, List.reverse_cons, List.append_assoc,
        List.singleton_append]

theorem climb_names {done names : List Text} (h : ∀ n ∈ names, IsName n) (rooted : Bool) :
    climb rooted done names = done.reverse ++ names := by
  rw [climb_plain rooted done names fun ha => (h _ ha).2.2.2 rfl, List.filter_eq_self.2]
  intro n hn
  simp [(h n hn).1, (h n hn).2.2.1]

theorem climb_components (rooted : Bool) (done : List Text) (path : Path) :
    climb rooted done (components path) = climb rooted done (Text.split '/' path) := by
  unfold components
  generalize Text.split '/' path = ps
  induction ps generalizing done with
  | nil => rfl
  | cons c ps ih =>
    by_cases hc : c = []
    · subst hc
      simpa [climb] using ih done
    · have hkeep : (!c.isEmpty) = true := by simpa using hc
      rw [List.filter_cons, if_pos hkeep]
      simp only [climb, ih]

theorem mem_climb {done ps : List Text} (hd : above ∉ done) {x : Text}
    (h : x ∈ climb true done ps) : x ∈ done ∨ x ∈ ps ∧ x ≠ [] ∧ x ≠ here ∧ x ≠ above := by
  induction ps generalizing done with
  | nil => exact Or.inl (by simpa [climb] using h)
  | cons c ps ih =>
    have next {done' : List Text} (hd' : above ∉ done') (h' : x ∈ climb true done' ps) :
        x ∈ done' ∨ x ∈ c :: ps ∧ x ≠ [] ∧ x ≠ here ∧ x ≠ above :=
      (ih hd' h').imp_right fun hm => ⟨List.mem_cons_of_mem _ hm.1, hm.2⟩
    simp only [climb] at h
    split at h
    · exact next hd h
    · next hc =>
      simp only [List.isEmpty_iff, not_or] at hc
      split at h
      · cases done with
        | nil => exact next hd h
        | cons d ds =>
          simp only [List.mem_cons, not_or] at hd
          simp only [if_neg (Ne.symm hd.1)] at h
          exact (next hd.2 h).imp_left (List.mem_cons_of_mem _)
      · next ha =>
        have hd' : above ∉ c :: done := by
          simp only [List.mem_cons, not_or]
          exact ⟨Ne.symm ha, hd⟩
        rcases next hd' h with hm | hm
        · rcases List.mem_cons.1 hm with rfl | hm
          · exact Or.inr ⟨List.mem_cons_self .., hc.1, hc.2, ha⟩
          · exact Or.inl hm
        · exact Or.inr hm

/-- A step above the start is never taken back. -/
theorem head?_climb_of_above {done : List Text} (h : done.getLast? = some above)
    (ps : List Text) : (climb false done ps).head? = some above := by
  induction ps generalizing done with
  | nil => simpa [climb] using h
  | cons c ps ih =>
    simp only [climb]
    split
    · exact ih h
    · split
      · cases done with
        | nil => simp at h
        | cons d ds =>
          refine ih ?_
          cases ds with
          | nil =>
            have hd : d = above := by simpa using h
            simp [hd]
          | cons e es =>
            split
            · simpa using h
            · simpa using h
      · refine ih ?_
        cases done with
        | nil => simp at h
        | cons d ds => simpa using h

theorem climb_over (rooted : Bool) (base done : List Text) {ps : List Text} (hd : above ∉ done)
    (h : (climb false done ps).head? ≠ some above) :
    climb rooted (done ++ base) ps = base.reverse ++ climb false done ps := by
  induction ps generalizing done with
  | nil => simp [climb]
  | cons c ps ih =>
    simp only [climb] at h ⊢
    by_cases hc : c.isEmpty = true ∨ c = here
    · rw [if_pos hc] at h ⊢
      rw [if_pos hc]
      exact ih done hd h
    · rw [if_neg hc] at h ⊢
      rw [if_neg hc]
      by_cases ha : c = above
      · rw [if_pos ha] at h ⊢
        rw [if_pos ha]
        cases done with
        | nil =>
          -- A step above the start would stay in front.
          exact absurd (head?_climb_of_above (by simp) ps) h
        | cons d ds =>
          simp only [List.mem_cons, not_or] at hd
          simp only [List.cons_append, if_neg (Ne.symm hd.1)] at h ⊢
          exact ih ds hd.2 h
      · rw [if_neg ha] at h ⊢
        rw [if_neg ha]
        have hd' : above ∉ c :: done := by
          simp only [List.mem_cons, not_or]
          exact ⟨Ne.symm ha, hd⟩
        exact ih (c :: done) hd' h

/-- A name that is left by a step above the start does not come back by itself. -/
theorem not_mem_climb_of_above {x : Text} {done ps : List Text} (hd : above ∉ done)
    (h : (climb false done ps).head? = some above) (hx : x ∉ done) (hp : x ∉ ps) :
    x ∉ climb true (done ++ [x]) ps := by
  induction ps generalizing done with
  | nil =>
    simp only [climb] at h
    exact absurd (List.mem_reverse.1 (List.mem_of_head? h)) hd
  | cons c ps ih =>
    simp only [List.mem_cons, not_or] at hp
    simp only [climb] at h ⊢
    by_cases hc : c.isEmpty = true ∨ c = here
    · rw [if_pos hc] at h ⊢
      exact ih hd h hx hp.2
    · rw [if_neg hc] at h ⊢
      by_cases ha : c = above
      · rw [if_pos ha] at h ⊢
        cases done with
        | nil =>
          -- Here the name is left; only the components to come could bring it back.
          have hxa : x ≠ above := fun e => hp.1 (e.trans ha.symm)
          simp only [List.nil_append, if_neg hxa]
          intro hm
          rcases mem_climb (by simp) hm with hm | hm
          · simp at hm
          · exact hp.2 hm.1
        | cons d ds =>
          simp only [List.mem_cons, not_or] at hd hx
          simp only [List.cons_append, if_neg (Ne.symm hd.1)] at h ⊢
          exact ih hd.2 h hx.2 hp.2
      · rw [if_neg ha] at h ⊢
        have hd' : above ∉ c :: done := by
          simp only [List.mem_cons, not_or]
          exact ⟨Ne.symm ha, hd⟩
        have hx' : x ∉ c :: done := by
          simp only [List.mem_cons, not_or]
          exact ⟨hp.1, hx⟩
        exact ih hd' h hx' hp.2

/-! ### Absolute form -/

theorem isName_of_mem_climb {path : Path} {x : Text}
    (h : x ∈ climb true [] (Text.split '/' path)) : IsName x := by
  rcases mem_climb (by simp) h with h | ⟨hm, hne, hh, ha⟩
  · simp at h
  · exact ⟨hne, Text.not_mem_of_mem_split hm, hh, ha⟩

theorem components_normalize {path : Path} (h : isAbsolute path = true) :
    components (normalize path) = climb true [] (Text.split '/' path) := by
  have hlead : lead path = ['/'] ∨ lead path = ['/', '/'] := by
    cases path with
    | nil => simp [isAbsolute] at h
    | cons c rest =>
      have hc : c = '/' := by simpa [isAbsolute] using h
      subst hc
      simp only [lead, List.takeWhile_cons, beq_self_eq_true, if_true, List.length_cons]
      split
      · omega
      · split
        · exact Or.inr rfl
        · exact Or.inl rfl
  have hjoin := components_join fun x (hx : x ∈ climb true [] (Text.split '/' path)) =>
    (isName_of_mem_climb hx).isPiece
  rcases hlead with hl | hl
  · simp only [normalize, hl]
    rw [if_neg (by simp)]
    exact hjoin
  · simp only [normalize, hl]
    rw [if_neg (by simp)]
    exact hjoin

/-- The names from which a path is climbed, last first. -/
def origin (cwd path : Path) : List Text :=
  if isAbsolute path then [] else (climb true [] (Text.split '/' cwd)).reverse

theorem climb_gap {cwd : Path} (h : cwd ≠ []) (done : List Text) (path : Path) :
    climb true done (Text.split '/' (cwd ++ gap cwd ++ path)) =
      climb true (climb true done (Text.split '/' cwd)).reverse (Text.split '/' path) := by
  rcases List.eq_nil_or_concat cwd with rfl | ⟨lead, c, rfl⟩
  · exact absurd rfl h
  · rw [List.concat_eq_append]
    by_cases hc : c = '/'
    · subst hc
      have hg : gap (lead ++ ['/']) = [] := by simp [gap]
      rw [hg, List.append_nil, List.append_assoc]
      rw [show lead ++ (['/'] ++ path) = lead ++ '/' :: path from rfl, Text.split_append_cons,
        Text.split_append_cons, climb_append, climb_append]
      simp [Text.split, climb]
    · have hg : gap (lead ++ [c]) = ['/'] := by simp [gap, hc]
      rw [hg, List.append_assoc]
      rw [show lead ++ [c] ++ (['/'] ++ path) = lead ++ [c] ++ '/' :: path from rfl,
        Text.split_append_cons, climb_append]

theorem components_absolute {cwd : Path} (h : isAbsolute cwd = true) (path : Path) :
    components (absolute cwd path) = climb true (origin cwd path) (Text.split '/' path) := by
  have hne : cwd ≠ [] := by
    rintro rfl
    simp [isAbsolute] at h
  by_cases hp : isAbsolute path = true
  · rw [absolute, if_pos hp, components_normalize hp, origin, if_pos hp]
  · have hj := join_of_ne_nil hne (by simpa using hp)
    have ha : isAbsolute (cwd ++ gap cwd ++ path) = true := by
      rw [List.append_assoc, isAbsolute_append hne, h]
    rw [absolute, if_neg hp, hj, components_normalize ha, origin, if_neg hp, climb_gap hne]

theorem isName_of_mem_absolute {cwd path : Path} (h : isAbsolute cwd = true) {x : Text}
    (hx : x ∈ components (absolute cwd path)) : IsName x := by
  have ha : ∃ full, isAbsolute full = true ∧ absolute cwd path = normalize full := by
    by_cases hp : isAbsolute path = true
    · exact ⟨path, hp, by rw [absolute, if_pos hp]⟩
    · have hne : cwd ≠ [] := by
        rintro rfl
        simp [isAbsolute] at h
      have hj := join_of_ne_nil hne (by simpa using hp)
      refine ⟨join cwd path, ?_, by rw [absolute, if_neg hp]⟩
      rw [hj, List.append_assoc, isAbsolute_append hne, h]
  obtain ⟨full, hfull, he⟩ := ha
  rw [he, components_normalize hfull] at hx
  exact isName_of_mem_climb hx

/-! ### Below an output root -/

/-- A root whose trimming loses nothing but separators at its end. -/
def IsRoot (root : Path) : Prop :=
  root ≠ [] ∧ (Text.trimEnd (· == '/') root).getLast? ≠ some '\\'

instance (root : Path) : Decidable (IsRoot root) :=
  inferInstanceAs (Decidable (_ ∧ _))

theorem isRoot_of_plain {root : Path} (hr : root ≠ []) (h : '\\' ∉ root) : IsRoot root := by
  refine ⟨hr, fun hl => h ?_⟩
  obtain ⟨tail, heq, _⟩ := Text.exists_trimEnd_append (· == '/') root
  rw [heq]
  exact List.mem_append_left _ (List.mem_of_getLast? hl)

theorem trimEnd_isSeparator {root : Path} (h : IsRoot root) :
    Text.trimEnd isSeparator root = Text.trimEnd (· == '/') root := by
  obtain ⟨tail, hroot, htail⟩ := Text.exists_trimEnd_append (· == '/') root
  have hcut : Text.trimEnd isSeparator root =
      Text.trimEnd isSeparator (Text.trimEnd (· == '/') root) := by
    rw [← Text.trimEnd_append_of_all (p := isSeparator) (Text.trimEnd (· == '/') root) tail
      (fun c hc => by simp only [isSeparator, htail c hc, Bool.true_or]), ← hroot]
  rw [hcut]
  refine Text.trimEnd_eq_self fun c hc => ?_
  have hslash : (c == '/') = false := Text.getLast?_trimEnd (p := (· == '/')) hc
  have hback : (c == '\\') = false := by
    have hne : c ≠ '\\' := fun e => h.2 (e ▸ hc)
    simpa using hne
  rw [isSeparator, hslash, hback]
  rfl

theorem under_eq {root : Path} (h : IsRoot root) (relative : Path) :
    under root relative = Text.trimEnd (· == '/') root ++ '/' :: relative := by
  have hne : ¬ (root.isEmpty = true) := by simpa using h.1
  rw [under, if_neg hne, trimEnd_isSeparator h]

theorem isAbsolute_under {root : Path} (h : IsRoot root) (relative : Path) :
    isAbsolute (under root relative) = isAbsolute root := by
  obtain ⟨tail, hroot, htail⟩ := Text.exists_trimEnd_append (· == '/') root
  rw [under_eq h]
  by_cases ht : Text.trimEnd (· == '/') root = []
  · have hr : isAbsolute root = true := by
      cases hc : root with
      | nil => exact absurd hc h.1
      | cons c rest =>
        have hs := Text.trimEnd_eq_nil_iff.1 ht c (hc ▸ List.mem_cons_self ..)
        simpa [isAbsolute] using hs
    rw [ht, hr]
    rfl
  · rw [isAbsolute_append ht]
    conv => rhs; rw [hroot, isAbsolute_append ht]

theorem climb_slashes (rooted : Bool) (done : List Text) (path tail : Path)
    (h : ∀ c ∈ tail, (c == '/') = true) :
    climb rooted done (Text.split '/' (path ++ tail)) =
      climb rooted done (Text.split '/' path) := by
  induction tail generalizing path with
  | nil => rw [List.append_nil]
  | cons c tail ih =>
    have hc : c = '/' := by simpa using h c (List.mem_cons_self ..)
    subst hc
    have ht := ih (path ++ ['/']) fun d hd => h d (List.mem_cons_of_mem _ hd)
    rw [List.append_assoc] at ht
    rw [show path ++ '/' :: tail = path ++ (['/'] ++ tail) from rfl, ht, Text.split_append_cons,
      climb_append]
    simp [Text.split, climb]

theorem components_absolute_under {cwd root : Path} (hc : isAbsolute cwd = true)
    (hr : IsRoot root) (relative : Path) :
    components (absolute cwd (under root relative)) =
      climb true (components (absolute cwd root)).reverse (Text.split '/' relative) := by
  obtain ⟨tail, hroot, htail⟩ := Text.exists_trimEnd_append (· == '/') root
  have ho : origin cwd (under root relative) = origin cwd root := by
    simp only [origin, isAbsolute_under hr]
  have ht : climb true (origin cwd root) (Text.split '/' (Text.trimEnd (· == '/') root)) =
      climb true (origin cwd root) (Text.split '/' root) := by
    have hs := climb_slashes true (origin cwd root) (Text.trimEnd (· == '/') root) tail htail
    rw [← hroot] at hs
    exact hs.symm
  rw [components_absolute hc, components_absolute hc, ho, under_eq hr, Text.split_append_cons,
    climb_append, ht]

theorem within_under {cwd root relative : Path} (hc : isAbsolute cwd = true) (hr : IsRoot root)
    (hd : Descends relative) : Within cwd root (under root relative) := by
  refine ⟨climb false [] (Text.split '/' relative), hd.1, ?_⟩
  have ho := climb_over true (components (absolute cwd root)).reverse [] (by simp) hd.2
  rw [components_absolute_under hc hr]
  simpa using ho

/-! ### Leaving a root -/

theorem components_absolute_slash {cwd : Path} (hc : isAbsolute cwd = true) {name : Text}
    (hn : IsName name) : components (absolute cwd ('/' :: name)) = [name] := by
  rw [components_absolute hc, origin, if_pos (by rfl),
    show '/' :: name = [] ++ '/' :: name from rfl, Text.split_append_cons,
    Text.split_of_not_mem hn.2.1]
  simp [Text.split, climb, hn.1, hn.2.2.1, hn.2.2.2]

theorem isName_replicate (n : Nat) : IsName (List.replicate (n + 1) 'a') := by
  refine ⟨by simp, by simp, fun h => ?_, fun h => ?_⟩
  · have hhead := congrArg List.head? h
    simp [List.replicate_succ, here] at hhead
  · have hhead := congrArg List.head? h
    simp [List.replicate_succ, above] at hhead

theorem replicate_not_mem_split (path : Path) :
    List.replicate (path.length + 1) 'a' ∉ Text.split '/' path := by
  intro hm
  have hl := (Text.sublist_of_mem_split hm).length_le
  rw [List.length_replicate] at hl
  omega

/-- A folder that the path itself does not name shows whether the path has left it. -/
theorem descends_of_climb {name : Text} {relative : Path} (hfresh : name ∉ Text.split '/' relative)
    {way : List Text} (hway : way ≠ [])
    (h : climb true [name] (Text.split '/' relative) = [name] ++ way) : Descends relative := by
  have hover : (climb false [] (Text.split '/' relative)).head? ≠ some above := by
    intro ha
    have hn := not_mem_climb_of_above (by simp) ha (by simp) hfresh
    rw [List.nil_append, h] at hn
    exact hn (by simp)
  refine ⟨fun hnil => ?_, hover⟩
  have ho := climb_over true [name] [] (by simp) hover
  rw [hnil, List.nil_append, h] at ho
  exact hway (by simpa using ho)

/-- A relative path that does not descend leaves some output root, wherever it is seen from. -/
theorem exists_not_within {relative : Path} (hd : ¬ Descends relative) :
    ∃ root, IsRoot root ∧
      ∀ cwd, isAbsolute cwd = true → ¬ Within cwd root (under root relative) := by
  have hname := isName_replicate relative.length
  have hroot : IsRoot ('/' :: List.replicate (relative.length + 1) 'a') :=
    isRoot_of_plain (by simp) (by simp)
  refine ⟨_, hroot, fun cwd hc ⟨way, hway, he⟩ => ?_⟩
  have hbase := components_absolute_slash hc hname
  rw [components_absolute_under hc hroot, hbase] at he
  exact hd (descends_of_climb (replicate_not_mem_split relative) hway he)

end Inlay.Path
