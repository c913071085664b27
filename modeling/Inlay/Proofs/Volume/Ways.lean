import Inlay.Proofs.Volume.Tree

/-!
# Ways through a tree

Without links a way is followed name by name and in one direction, so it can be cut and put
together again (`follow_append`), and a way leads where it led as long as its folders are there
(`follow_of_folders`).
-/

namespace Inlay.Volume

/-- A path leads to a place, whatever stands there. -/
def Leads (v : Volume) (path : Path) (place : Place) : Prop :=
  path ≠ [] ∧ v.follow true linkLimit (v.start path) (Path.components path) = .ok (.found place)

/-- Nothing is gone or different. -/
structure Extends (v w : Volume) : Prop where
  current : w.current = v.current
  limits : w.limits = v.limits
  get? : ∀ place entry, v.get? place = some entry → w.get? place = some entry

theorem Extends.refl (v : Volume) : Extends v v := ⟨rfl, rfl, fun _ _ h => h⟩

theorem Extends.trans {u v w : Volume} (h : Extends u v) (h' : Extends v w) : Extends u w :=
  ⟨h'.current.trans h.current, h'.limits.trans h.limits, fun p e he => h'.get? p e (h.get? p e he)⟩

theorem extends_put {v : Volume} {place : Place} (hne : place ≠ []) (h : v.get? place = none)
    (entry : Entry) : Extends v (v.put place entry) := by
  refine ⟨rfl, rfl, fun p e he => ?_⟩
  have hp : p ≠ place := fun hp => by simp [hp, h] at he
  rw [get?_put hne, if_neg hp, he]

variable {v : Volume}

/-! ### Following -/

theorem follow_nil (toEnd : Bool) (links : Nat) (here : Place) :
    v.follow toEnd links here [] = .ok (.found here) := by
  rw [follow]

theorem follow_here {place : Place} (h : v.get? place = some .folder) (toEnd : Bool) (links : Nat)
    (rest : List Text) :
    v.follow toEnd links place (Path.here :: rest) = v.follow toEnd links place rest := by
  rw [follow, h]
  simp

theorem follow_above {place : Place} (h : v.get? place = some .folder) (toEnd : Bool)
    (links : Nat) (rest : List Text) :
    v.follow toEnd links place (Path.above :: rest) =
      v.follow toEnd links place.dropLast rest := by
  rw [follow, h]
  simp [Path.here, Path.above]

theorem follow_notFolder {place : Place} (h : v.get? place ≠ some .folder) (toEnd : Bool)
    (links : Nat) (name : Text) (rest : List Text) :
    v.follow toEnd links place (name :: rest) = .error (v.obstacle place) := by
  rw [follow]
  split
  · next hp => exact absurd hp h
  · rfl

theorem eq_of_follow_here {toEnd : Bool} {links : Nat} {place found : Place} {p : Prop}
    [Decidable p]
    (h : v.follow toEnd links place (if p then [Path.here] else []) = .ok (.found found)) :
    place = found := by
  split at h
  · by_cases hd : v.get? place = some .folder
    · rw [follow_here hd, follow_nil] at h
      simpa using h
    · rw [follow_notFolder hd] at h
      simp at h
  · rw [follow_nil] at h
    simpa using h

theorem Leads.unique {path : Path} {place place' : Place} (h : v.Leads path place)
    (h' : v.Leads path place') : place = place' := by
  have he := h.2.symm.trans h'.2
  simpa using he

variable [Alphabet]

theorem Tree.not_exceeds (h : v.Tree) (length : Nat) :
    Limits.exceeds v.limits.name length = false ∧ Limits.exceeds v.limits.path length = false := by
  rw [h.unbounded]
  exact ⟨rfl, rfl⟩

theorem Tree.follow_name (h : v.Tree) {place : Place} (hp : v.get? place = some .folder)
    {name : Text} (hh : name ≠ Path.here) (ha : name ≠ Path.above) (toEnd : Bool) (links : Nat)
    (rest : List Text) :
    v.follow toEnd links place (name :: rest) =
      match v.get? (place ++ [name]) with
      | none => if rest.isEmpty then .ok (.vacant place name) else .error .noEntry
      | some _ => v.follow toEnd links (place ++ [name]) rest := by
  have hl := (h.not_exceeds (Utf8.encode name).length).1
  rw [follow, hp]
  simp only [if_neg hh, if_neg ha, hl, Bool.false_eq_true, if_false]
  cases he : v.get? (place ++ [name]) with
  | none => rfl
  | some entry =>
    cases entry with
    | link target => exact absurd he h.not_link
    | folder => rfl
    | file content => rfl

theorem Tree.follow_append (h : v.Tree) {toEnd : Bool} {links : Nat} {place found : Place}
    {xs : List Text} (hx : v.follow toEnd links place xs = .ok (.found found)) (ys : List Text) :
    v.follow toEnd links place (xs ++ ys) = v.follow toEnd links found ys := by
  induction xs generalizing place with
  | nil =>
    rw [follow_nil] at hx
    simp only [Except.ok.injEq, Landing.found.injEq] at hx
    rw [List.nil_append, hx]
  | cons name xs ih =>
    rw [List.cons_append]
    by_cases hp : v.get? place = some .folder
    · by_cases hh : name = Path.here
      · rw [hh, follow_here hp] at hx ⊢
        exact ih hx
      · by_cases ha : name = Path.above
        · rw [ha, follow_above hp] at hx ⊢
          exact ih hx
        · rw [h.follow_name hp hh ha] at hx ⊢
          cases he : v.get? (place ++ [name]) with
          | none =>
            rw [he] at hx
            simp only at hx
            split at hx <;> simp at hx
          | some entry =>
            rw [he] at hx
            exact ih hx
    · rw [follow_notFolder hp] at hx
      simp at hx

theorem Tree.exists_follow_of_append (h : v.Tree) {toEnd : Bool} {links : Nat}
    {place found : Place} {xs ys : List Text}
    (hxy : v.follow toEnd links place (xs ++ ys) = .ok (.found found)) :
    ∃ mid, v.follow toEnd links place xs = .ok (.found mid) := by
  induction xs generalizing place with
  | nil => exact ⟨place, follow_nil ..⟩
  | cons name xs ih =>
    rw [List.cons_append] at hxy
    by_cases hp : v.get? place = some .folder
    · by_cases hh : name = Path.here
      · rw [hh, follow_here hp] at hxy ⊢
        exact ih hxy
      · by_cases ha : name = Path.above
        · rw [ha, follow_above hp] at hxy ⊢
          exact ih hxy
        · rw [h.follow_name hp hh ha] at hxy ⊢
          cases he : v.get? (place ++ [name]) with
          | none =>
            rw [he] at hxy
            simp only at hxy
            split at hxy <;> simp at hxy
          | some entry =>
            rw [he] at hxy
            exact ih hxy
    · rw [follow_notFolder hp] at hxy
      simp at hxy

theorem Tree.follow_names (h : v.Tree) {place : Place} {names : List Text} {entry : Entry}
    (he : v.get? (place ++ names) = some entry) (toEnd : Bool) (links : Nat) :
    v.follow toEnd links place names = .ok (.found (place ++ names)) := by
  have hnames := h.isName_below he
  induction names generalizing place with
  | nil => rw [follow_nil, List.append_nil]
  | cons n names ih =>
    have hn := hnames n (List.mem_cons_self ..)
    have hp := h.folder_of_below he (by simp)
    have he' : v.get? (place ++ [n] ++ names) = some entry := by simpa using he
    have hs : v.get? (place ++ [n]) ≠ none := by
      by_cases hz : names = []
      · rw [hz, List.append_nil] at he'
        simp [he']
      · simp [h.folder_of_below he' hz]
    obtain ⟨e, hs⟩ := Option.ne_none_iff_exists'.1 hs
    rw [h.follow_name hp hn.2.2.1 hn.2.2.2, hs]
    have hi := ih he' fun m hm => hnames m (List.mem_cons_of_mem _ hm)
    simpa using hi

theorem Tree.follow_toEnd (h : v.Tree) (toEnd : Bool) (links : Nat) (place : Place)
    (xs : List Text) : v.follow toEnd links place xs = v.follow true links place xs := by
  induction xs generalizing place with
  | nil => rw [follow_nil, follow_nil]
  | cons name xs ih =>
    by_cases hp : v.get? place = some .folder
    · by_cases hh : name = Path.here
      · rw [hh, follow_here hp, follow_here hp, ih]
      · by_cases ha : name = Path.above
        · rw [ha, follow_above hp, follow_above hp, ih]
        · rw [h.follow_name hp hh ha, h.follow_name hp hh ha]
          cases v.get? (place ++ [name]) with
          | none => rfl
          | some entry => exact ih _
    · rw [follow_notFolder hp, follow_notFolder hp]

/-- A way is still there if its folders are and something stands at its end. -/
theorem Tree.follow_of_folders (hv : v.Tree) {w : Volume} (hw : w.Tree)
    (hfolders : ∀ p, v.get? p = some .folder → w.get? p = some .folder) {toEnd : Bool}
    {links : Nat} {place found : Place} {xs : List Text}
    (hend : v.get? found ≠ none → w.get? found ≠ none)
    (h : v.follow toEnd links place xs = .ok (.found found)) :
    w.follow toEnd links place xs = .ok (.found found) := by
  induction xs generalizing place with
  | nil =>
    rw [follow_nil] at h ⊢
    exact h
  | cons name xs ih =>
    by_cases hp : v.get? place = some .folder
    · have hp' := hfolders place hp
      by_cases hh : name = Path.here
      · rw [hh, follow_here hp] at h
        rw [hh, follow_here hp']
        exact ih h
      · by_cases ha : name = Path.above
        · rw [ha, follow_above hp] at h
          rw [ha, follow_above hp']
          exact ih h
        · rw [hv.follow_name hp hh ha] at h
          rw [hw.follow_name hp' hh ha]
          cases hs : v.get? (place ++ [name]) with
          | none =>
            -- A name that is missing is no place that has been found.
            rw [hs] at h
            simp only at h
            split at h <;> simp at h
          | some entry =>
            rw [hs] at h
            -- It is the end of the way, or a folder on it.
            have hthere : w.get? (place ++ [name]) ≠ none := by
              cases xs with
              | nil =>
                simp only [follow_nil, Except.ok.injEq, Landing.found.injEq] at h
                subst h
                exact hend (by simp [hs])
              | cons m xs =>
                have hfolder : v.get? (place ++ [name]) = some .folder := by
                  by_contra hno
                  simp only [follow_notFolder hno] at h
                  simp at h
                simp [hfolders _ hfolder]
            obtain ⟨entry', hs'⟩ := Option.ne_none_iff_exists'.1 hthere
            rw [hs']
            exact ih h
    · rw [follow_notFolder hp] at h
      simp at h

theorem Tree.leads_of_folders (hv : v.Tree) {w : Volume} (hw : w.Tree)
    (hcurrent : w.current = v.current)
    (hfolders : ∀ p, v.get? p = some .folder → w.get? p = some .folder) {path : Path}
    {place : Place} (hend : v.get? place ≠ none → w.get? place ≠ none) (h : v.Leads path place) :
    w.Leads path place := by
  have hs : w.start path = v.start path := by rw [start, start, hcurrent]
  refine ⟨h.1, ?_⟩
  rw [hs]
  exact hv.follow_of_folders hw hfolders hend h.2

/-! ### Paths -/

theorem Tree.locate (h : v.Tree) {path : Path} (hne : path ≠ []) (toEnd : Bool)
    (steps : List Text) :
    v.locate toEnd path steps = v.follow true linkLimit (v.start path) steps := by
  have hl := (h.not_exceeds (Utf8.encode path).length).2
  have hn : ¬ (path.isEmpty = true) := by simpa using hne
  rw [Volume.locate, if_neg hn, if_neg (by simp [hl]), h.follow_toEnd]

theorem Tree.locate_of_leads (h : v.Tree) {path : Path} {place : Place}
    (hl : v.Leads path place) (toEnd : Bool) :
    v.locate toEnd path (Path.components path) = .ok (.found place) := by
  rw [h.locate hl.1, hl.2]

theorem Tree.follow_steps (h : v.Tree) {path : Path} {place : Place} (hl : v.Leads path place)
    (hf : path.getLast? = some '/' → v.get? place = some .folder) :
    v.follow true linkLimit (v.start path) (steps path) = .ok (.found place) := by
  rw [steps, h.follow_append hl.2]
  split
  · next hs =>
    rw [follow_here (hf hs), follow_nil]
  · rw [follow_nil]

theorem Tree.stat_of_leads (h : v.Tree) {path : Path} {place : Place} {entry : Entry}
    (hl : v.Leads path place) (he : v.get? place = some entry)
    (hf : path.getLast? = some '/' → entry = .folder) : v.stat path = .ok entry := by
  have hs := h.follow_steps hl fun hp => by rw [he, hf hp]
  simp only [stat, h.locate hl.1, hs, he]

theorem Tree.list_of_leads (h : v.Tree) {path : Path} {place : Place}
    (hl : v.Leads path place) (he : v.get? place = some .folder) :
    v.list path = .ok (v.names place) := by
  have hs := h.follow_steps hl fun _ => he
  simp only [list, h.locate hl.1, hs, he]

theorem Tree.folder_of_list (h : v.Tree) {path : Path} {place : Place} {names : List Text}
    (hl : v.Leads path place) (hlist : v.list path = .ok names) :
    v.get? place = some .folder := by
  by_contra hp
  have hs : v.follow true linkLimit (v.start path) (steps path) =
      v.follow true linkLimit place (if path.getLast? = some '/' then [Path.here] else []) :=
    h.follow_append hl.2 _
  simp only [list, h.locate hl.1, hs] at hlist
  split at hlist
  · simp at hlist
  · simp at hlist
  · next found hf =>
    split at hf
    · rw [follow_notFolder hp] at hf
      simp at hf
    · rw [follow_nil] at hf
      obtain rfl : place = found := by simpa using hf
      split at hlist
      · next hd => exact hp hd
      · simp at hlist

theorem Tree.isFolder_of_leads (h : v.Tree) {path : Path} {place : Place}
    (hl : v.Leads path place) (he : v.get? place = some .folder) : v.isFolder path = true := by
  simp only [isFolder, h.stat_of_leads hl he fun _ => rfl]

theorem Tree.exists_leads_of_stat (h : v.Tree) {path : Path} {entry : Entry}
    (hs : v.stat path = .ok entry) :
    ∃ place, v.Leads path place ∧ v.get? place = some entry := by
  by_cases hne : path = []
  · subst hne
    simp [stat, Volume.locate] at hs
  · simp only [stat, h.locate hne] at hs
    cases hf : v.follow true linkLimit (v.start path) (steps path) with
    | error e => simp [hf] at hs
    | ok landing =>
      cases landing with
      | vacant folder name => simp [hf] at hs
      | found place =>
        simp only [hf] at hs
        obtain ⟨mid, hm⟩ := h.exists_follow_of_append hf
        have ha := h.follow_append hm (if path.getLast? = some '/' then [Path.here] else [])
        rw [← steps, hf] at ha
        have hmid := eq_of_follow_here ha.symm
        subst hmid
        refine ⟨mid, ⟨hne, hm⟩, ?_⟩
        cases hg : v.get? mid with
        | none => simp [hg] at hs
        | some e =>
          simp only [hg, Except.ok.injEq] at hs
          rw [hs]

theorem Tree.leads_descend (h : v.Tree) {root : Path} {place : Place} (hl : v.Leads root place)
    {names : List Text} {entry : Entry} (he : v.get? (place ++ names) = some entry) :
    v.Leads (Path.descend root names) (place ++ names) := by
  have hnames := Path.isPiece_of_isName (h.isName_below he)
  refine ⟨Path.descend_ne_nil hl.1 hnames, ?_⟩
  rw [start, Path.isAbsolute_descend hl.1 hnames, ← start, Path.components_descend root hnames,
    h.follow_append hl.2, h.follow_names he]

theorem Tree.stat_descend (h : v.Tree) {root : Path} {place : Place} (hl : v.Leads root place)
    {names : List Text} {name : Text} {entry : Entry}
    (he : v.get? (place ++ (names ++ [name])) = some entry) :
    v.stat (Path.descend root (names ++ [name])) = .ok entry := by
  have hn := (h.child (by rw [List.append_assoc]; exact he)).2.1
  exact h.stat_of_leads (h.leads_descend hl he) he fun hc =>
    absurd hc (Path.getLast?_descend_concat root names hn.isPiece)

theorem Tree.read_descend (h : v.Tree) {root : Path} {place : Place} (hl : v.Leads root place)
    {names : List Text} {name : Text} {content : Bytes}
    (he : v.get? (place ++ (names ++ [name])) = some (.file content)) :
    v.read (Path.descend root (names ++ [name])) = .ok content := by
  rw [read, h.stat_descend hl he]

theorem Extends.leads {w : Volume} (he : Extends v w) (hv : v.Tree) (hw : w.Tree) {path : Path}
    {place : Place} (h : v.Leads path place) : w.Leads path place := by
  refine hv.leads_of_folders hw he.current (fun p hp => he.get? p _ hp) (fun hne => ?_) h
  obtain ⟨entry, hentry⟩ := Option.ne_none_iff_exists'.1 hne
  simp [he.get? place entry hentry]

end Inlay.Volume
