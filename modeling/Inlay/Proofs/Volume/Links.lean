import Inlay.Proofs.Volume.Ways

/-!
# Ways through links

With links a name leads to an entry or to where a link leads from there, and it does so whatever is
followed after it (`cases_of_follow_name`). A way can still be cut, at the cost of the links that
its first part has used up (`exists_follow_of_append`), and more links do no harm (`follow_of_le`).
What is written into files does not matter to a way (`Carries.follow`).
-/

namespace Inlay.Volume

variable {v : Volume} {toEnd : Bool} {links : Nat} {here found : Place} {name : Text}
  {rest : List Text}

/-! ### One name -/

/-- A name that is followed is an entry: a link that is used up, or a step to a place. What comes
after it is followed from there. -/
theorem cases_of_follow_name (hn : name ≠ Path.here) (ha : name ≠ Path.above)
    (hend : toEnd = true ∨ rest ≠ [])
    (h : v.follow toEnd links here (name :: rest) = .ok (.found found)) :
    v.get? here = some .folder ∧
      ((∃ target more, v.get? (here ++ [name]) = some (.link target) ∧ links = more + 1 ∧
          ∀ (toEnd' : Bool) (rest' : List Text), toEnd' = true ∨ rest' ≠ [] →
            v.follow toEnd' links here (name :: rest') = v.follow toEnd' more
              (if target.isAbsolute then [] else here) (steps target ++ rest')) ∨
        (∃ entry, v.get? (here ++ [name]) = some entry) ∧
          ∀ (toEnd' : Bool) (rest' : List Text), toEnd' = true ∨ rest' ≠ [] →
            v.follow toEnd' links here (name :: rest') =
              v.follow toEnd' links (here ++ [name]) rest') := by
  by_cases hp : v.get? here = some .folder
  · refine ⟨hp, ?_⟩
    have hnot {toEnd' : Bool} {rest' : List Text} (hend' : toEnd' = true ∨ rest' ≠ []) :
        ¬ (rest'.isEmpty && !toEnd') = true := by
      rcases hend' with rfl | hne
      · simp
      · simp [hne]
    rw [follow, hp] at h
    simp only [if_neg hn, if_neg ha] at h
    split at h
    · simp at h
    · next hfits =>
      split at h
      · split at h <;> simp at h
      · next target hlink =>
        rw [if_neg (hnot hend)] at h
        split at h
        · simp at h
        · next more =>
          refine Or.inl ⟨target, more, hlink, rfl, fun toEnd' rest' hend' => ?_⟩
          rw [follow, hp]
          simp only [if_neg hn, if_neg ha, if_neg hfits, hlink, if_neg (hnot hend')]
      · next entry hother hentry =>
        refine Or.inr ⟨⟨entry, hentry⟩, fun toEnd' rest' hend' => ?_⟩
        rw [follow, hp]
        simp only [if_neg hn, if_neg ha, if_neg hfits, hentry]
  · rw [follow_notFolder hp] at h
    simp at h

/-- A name at the end is the entry itself if links are not followed there. -/
theorem eq_of_follow_name (hn : Path.IsName name)
    (h : v.follow false links here [name] = .ok (.found found)) : found = here ++ [name] := by
  by_cases hp : v.get? here = some .folder
  · rw [follow, hp] at h
    simp only [if_neg hn.2.2.1, if_neg hn.2.2.2, List.isEmpty_nil, Bool.not_false, Bool.and_self,
      if_true, follow_nil] at h
    split at h
    · simp at h
    · split at h
      · simp at h
      · exact (Landing.found.inj (Except.ok.inj h)).symm
      · exact (Landing.found.inj (Except.ok.inj h)).symm
  · rw [follow_notFolder hp] at h
    simp at h

/-! ### Cutting a way -/

/-- What is followed after some names starts where they lead, with no more links than before. -/
theorem exists_follow_of_append {links : Nat} {here : Place} (xs : List Text) {ys : List Text}
    (hend : toEnd = true ∨ ys ≠ [])
    (h : v.follow toEnd links here (xs ++ ys) = .ok (.found found)) :
    ∃ links' here', links' ≤ links ∧ v.follow true links here xs = .ok (.found here') ∧
      v.follow toEnd links' here' ys = .ok (.found found) := by
  match xs with
  | [] => exact ⟨links, here, Nat.le_refl _, follow_nil .., h⟩
  | name :: xs =>
    rw [List.cons_append] at h
    by_cases hp : v.get? here = some .folder
    · by_cases hn : name = Path.here
      · rw [hn, follow_here hp] at h ⊢
        exact exists_follow_of_append xs hend h
      · by_cases ha : name = Path.above
        · rw [ha, follow_above hp] at h ⊢
          exact exists_follow_of_append xs hend h
        · have hmore : toEnd = true ∨ xs ++ ys ≠ [] := hend.imp_right fun hne => by simp [hne]
          rcases (cases_of_follow_name hn ha hmore h).2 with
            ⟨target, more, _, rfl, hname⟩ | ⟨_, hname⟩
          · rw [hname _ _ hmore, ← List.append_assoc] at h
            rw [hname _ _ (Or.inl rfl)]
            obtain ⟨links', here', hle, hfirst, h⟩ :=
              exists_follow_of_append (steps target ++ xs) hend h
            exact ⟨links', here', by omega, hfirst, h⟩
          · rw [hname _ _ hmore] at h
            rw [hname _ _ (Or.inl rfl)]
            exact exists_follow_of_append xs hend h
    · rw [follow_notFolder hp] at h
      simp at h
termination_by (links, xs.length)

theorem follow_of_le {links' : Nat} {steps : List Text} {landing : Landing} (hle : links ≤ links')
    (h : v.follow toEnd links here steps = .ok landing) :
    v.follow toEnd links' here steps = .ok landing := by
  obtain ⟨more, rfl⟩ := Nat.exists_eq_add_of_le hle
  clear hle
  fun_induction v.follow toEnd links here steps with
  | case1 => rw [follow_nil, h]
  | case2 _ _ _ hp ih => rw [follow_here hp, ih h]
  | case3 _ _ _ hp _ ih => rw [follow_above hp, ih h]
  | case5 _ _ _ _ hp hh ha hfits hnone hlast =>
    rw [follow, hp]
    simpa [hh, ha, hfits, hnone, hlast] using h
  | case7 _ _ _ _ hp hh ha hfits _ hlink hlast =>
    rw [follow, hp]
    simpa [hh, ha, hfits, hlink, hlast] using h
  | case9 _ _ _ hp hh ha hfits _ hlink hgoes links _ ih =>
    rw [Nat.succ_add, follow, hp]
    simp only [if_neg hh, if_neg ha, if_neg hfits, hlink, if_neg hgoes]
    exact ih h
  | case10 _ _ _ _ hp hh ha hfits entry hnot hentry ih =>
    have hmore := ih h
    rw [follow, hp]
    cases entry with
    | link target => exact absurd rfl (hnot target)
    | file content => simpa [hh, ha, hfits, hentry] using hmore
    | folder => simpa [hh, ha, hfits, hentry] using hmore
  | case4 | case6 | case8 | case11 => simp at h

/-- A way to a folder starts at a folder. -/
theorem folder_of_follow {steps : List Text}
    (h : v.follow toEnd links here steps = .ok (.found found))
    (hfound : v.get? found = some .folder) : v.get? here = some .folder := by
  cases steps with
  | nil =>
    rw [follow_nil] at h
    obtain rfl := Landing.found.inj (Except.ok.inj h)
    exact hfound
  | cons name rest =>
    by_contra hnot
    rw [follow_notFolder hnot] at h
    simp at h

/-! ### Looking -/

theorem follow_of_locate {toEnd : Bool} {path : Path} {steps : List Text} {landing : Landing}
    (h : v.locate toEnd path steps = .ok landing) :
    v.follow toEnd linkLimit (v.start path) steps = .ok landing := by
  unfold locate at h
  split at h
  · simp at h
  · split at h
    · simp at h
    · exact h

/-- Where a path leads is decided by the way that its names take. -/
theorem locate_of_follow {w : Volume} (hcurrent : w.current = v.current)
    (hlimits : w.limits = v.limits) {path : Path} {steps : List Text} {landing : Landing}
    (h : v.locate toEnd path steps = .ok landing)
    (hfollow : w.follow toEnd linkLimit (v.start path) steps = .ok landing) :
    w.locate toEnd path steps = .ok landing := by
  have hstart : w.start path = v.start path := by rw [start, start, hcurrent]
  unfold locate at h ⊢
  split at h
  · simp at h
  · split at h
    · simp at h
    · next hne hfits => rw [if_neg hne, hlimits, if_neg hfits, hstart, hfollow]

theorem stat_eq_ok_iff {path : Path} {entry : Entry} :
    v.stat path = .ok entry ↔
      ∃ place, v.locate true path (steps path) = .ok (.found place) ∧
        v.get? place = some entry := by
  unfold stat
  cases v.locate true path (steps path) with
  | error e => simp
  | ok landing =>
    cases landing with
    | vacant folder name => simp
    | found place => cases hp : v.get? place <;> simp [hp]

theorem isFolder_iff {path : Path} :
    v.isFolder path = true ↔
      ∃ place, v.locate true path (steps path) = .ok (.found place) ∧
        v.get? place = some .folder := by
  rw [← stat_eq_ok_iff]
  unfold isFolder
  split
  · next h => simp [h]
  · next h => simpa using h

theorem isFile_iff {path : Path} :
    v.isFile path = true ↔ ∃ content, v.stat path = .ok (.file content) := by
  unfold isFile
  split
  · next content h => simp [h]
  · next h => simpa using h

theorem read_eq_ok_iff {path : Path} {content : Bytes} :
    v.read path = .ok content ↔ v.stat path = .ok (.file content) := by
  unfold read
  cases v.stat path with
  | error e => simp
  | ok entry => cases entry <;> simp

theorem list_eq_ok_iff {path : Path} {names : List Text} :
    v.list path = .ok names ↔
      ∃ place, v.locate true path (steps path) = .ok (.found place) ∧
        v.get? place = some .folder ∧ v.names place = names := by
  unfold list
  cases v.locate true path (steps path) with
  | error e => simp
  | ok landing =>
    cases landing with
    | vacant folder name => simp
    | found place =>
      by_cases hp : v.get? place = some .folder
      · simp [hp]
      · simp [hp]

/-! ### Ways that are carried over -/

/-- Folders and links are still there, and files are still files. -/
structure Carries (v w : Volume) : Prop where
  current : w.current = v.current
  limits : w.limits = v.limits
  folder : ∀ place, v.get? place = some .folder → w.get? place = some .folder
  link : ∀ place target, v.get? place = some (.link target) → w.get? place = some (.link target)
  file : ∀ place content, v.get? place = some (.file content) →
    ∃ content', w.get? place = some (.file content')

theorem Carries.trans {u v w : Volume} (h : u.Carries v) (h' : v.Carries w) : u.Carries w where
  current := h'.current.trans h.current
  limits := h'.limits.trans h.limits
  folder p hp := h'.folder p (h.folder p hp)
  link p target hp := h'.link p target (h.link p target hp)
  file p content hp := by
    obtain ⟨content', hv⟩ := h.file p content hp
    exact h'.file p content' hv

theorem Extends.carries {v w : Volume} (h : v.Extends w) : v.Carries w where
  current := h.current
  limits := h.limits
  folder p hp := h.get? p _ hp
  link p _ hp := h.get? p _ hp
  file p content hp := ⟨content, h.get? p _ hp⟩

theorem Carries.follow {w : Volume} (hc : w.Carries v) {toEnd : Bool} {links : Nat}
    {here place : Place} {steps : List Text}
    (h : w.follow toEnd links here steps = .ok (.found place)) :
    v.follow toEnd links here steps = .ok (.found place) := by
  -- Every entry on the way is there, and is of the same kind.
  have hlimits : w.limits = v.limits := hc.limits.symm
  fun_induction w.follow toEnd links here steps with
  | case1 => rw [follow_nil, ← h]
  | case2 _ _ _ hp ih => rw [follow_here (hc.folder _ hp), ih h]
  | case3 _ _ _ hp _ ih => rw [follow_above (hc.folder _ hp), ih h]
  | case7 _ _ _ _ hp hh ha hfits _ hlink hend =>
    rw [Volume.follow, hc.folder _ hp]
    rw [hlimits] at hfits
    simpa [hh, ha, hfits, hc.link _ _ hlink, hend] using h
  | case9 _ _ _ hp hh ha hfits _ hlink hend links _ ih =>
    rw [Volume.follow, hc.folder _ hp]
    rw [hlimits] at hfits
    simp only [if_neg hh, if_neg ha, if_neg hfits, hc.link _ _ hlink, if_neg hend]
    exact ih h
  | case10 _ _ _ _ hp hh ha hfits entry hnot hentry ih =>
    rw [Volume.follow, hc.folder _ hp]
    rw [hlimits] at hfits
    cases entry with
    | link target => exact absurd rfl (hnot target)
    | file content =>
      obtain ⟨content', hfile⟩ := hc.file _ _ hentry
      simpa [hh, ha, hfits, hfile] using ih h
    | folder => simpa [hh, ha, hfits, hc.folder _ hentry] using ih h
  | case4 | case5 | case6 | case8 | case11 => simp at h

theorem Carries.locate {w : Volume} (hc : w.Carries v) {toEnd : Bool} {path : Path}
    {steps : List Text} {place : Place} (h : w.locate toEnd path steps = .ok (.found place)) :
    v.locate toEnd path steps = .ok (.found place) :=
  locate_of_follow hc.current hc.limits h (hc.follow (follow_of_locate h))

end Inlay.Volume
