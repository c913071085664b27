import Inlay.Proofs.Path.Outputs
import Inlay.Proofs.Volume.Ways

/-!
# Normal forms and places

Without links, a path leads to the place that its normal form spells
(`Tree.normal_of_leads`): entering a name and leaving it again is the same in a tree as in the
text.
-/

namespace Inlay

namespace Path

theorem components_ne_nil {path : Path} (hne : path ≠ []) (ha : isAbsolute path = false) :
    components path ≠ [] := by
  cases path with
  | nil => exact absurd rfl hne
  | cons c rest =>
    have hc : c ≠ '/' := by simpa [isAbsolute] using ha
    obtain ⟨piece, pieces, _, hsplit⟩ := Text.split_cons_of_ne hc rest
    rw [components, hsplit]
    simp

/-! ### Climbing from a place -/

theorem climb_here (rooted : Bool) (done rest : List Text) :
    climb rooted done (here :: rest) = climb rooted done rest := by
  simp [climb, here]

theorem climb_name {name : Text} (h : IsName name) (rooted : Bool) (done rest : List Text) :
    climb rooted done (name :: rest) = climb rooted (name :: done) rest := by
  obtain ⟨hne, _, hhere, habove⟩ := h
  simp [climb, hne, hhere, habove]

/-- Among the names of a place, which are all entered, the last one is left. -/
theorem climb_above {place : List Text} (h : ∀ n ∈ place, IsName n) (rest : List Text) :
    climb true place.reverse (above :: rest) = climb true place.dropLast.reverse rest := by
  have hskip : ¬ (above.isEmpty = true ∨ above = here) := by decide
  rcases List.eq_nil_or_concat place with rfl | ⟨lead, last, rfl⟩
  · simp only [climb, if_neg hskip]
    rfl
  · rw [List.concat_eq_append] at h ⊢
    have hlast : last ≠ above := (h last (by simp)).2.2.2
    rw [List.dropLast_concat, List.reverse_append, List.reverse_singleton, List.singleton_append]
    simp only [climb, if_neg hskip, if_true, if_neg hlast]

end Path

namespace Volume

/-- The normal form of a path, as a place. -/
def normal (v : Volume) (path : Path) : Place := Path.components (v.absolute path)

variable {v : Volume}

theorem climb_currentPath (h : ∀ n ∈ v.current, Path.IsName n) :
    Path.climb true [] (Text.split '/' v.currentPath) = v.current := by
  rw [← Path.climb_components, currentPath,
    show '/' :: Text.join '/' v.current = [] ++ '/' :: Text.join '/' v.current from rfl,
    Path.components_append_slash, Path.components_nil, List.nil_append,
    Path.components_join (Path.isPiece_of_isName h), Path.climb_names h]
  rfl

variable [Alphabet]

theorem Tree.climb_of_follow (h : v.Tree) {toEnd : Bool} {links : Nat} {place found : Place}
    {xs : List Text} (hpieces : ∀ x ∈ xs, Path.IsPiece x) (hplace : ∀ n ∈ place, Path.IsName n)
    (hf : v.follow toEnd links place xs = .ok (.found found)) :
    Path.climb true place.reverse xs = found := by
  induction xs generalizing place with
  | nil =>
    rw [follow_nil] at hf
    simpa [Path.climb] using hf
  | cons name xs ih =>
    obtain ⟨hpiece, hrest⟩ := List.forall_mem_cons.1 hpieces
    by_cases hp : v.get? place = some .folder
    · by_cases hh : name = Path.here
      · rw [hh, follow_here hp] at hf
        rw [hh, Path.climb_here]
        exact ih hrest hplace hf
      · by_cases ha : name = Path.above
        · rw [ha, follow_above hp] at hf
          rw [ha, Path.climb_above hplace]
          exact ih hrest (fun n hn => hplace n (List.dropLast_subset place hn)) hf
        · have hname : Path.IsName name := ⟨hpiece.1, hpiece.2, hh, ha⟩
          rw [h.follow_name hp hh ha] at hf
          rw [Path.climb_name hname]
          cases hs : v.get? (place ++ [name]) with
          | none =>
            rw [hs] at hf
            simp only at hf
            split at hf <;> simp at hf
          | some entry =>
            rw [hs] at hf
            have hnames : ∀ n ∈ place ++ [name], Path.IsName n :=
              List.forall_mem_append.2 ⟨hplace, List.forall_mem_singleton.2 hname⟩
            simpa using ih hrest hnames hf
    · rw [follow_notFolder hp] at hf
      simp at hf

omit [Alphabet] in
/-- A relative path leads nowhere unless the current folder is there. -/
theorem standing_of_follow {toEnd : Bool} {links : Nat} {path : Path} {names : List Text}
    {landing : Landing} (ha : Path.isAbsolute path = false) (hne : names ≠ [])
    (hf : v.follow toEnd links (v.start path) names = .ok landing) :
    v.get? v.current = some .folder := by
  by_contra hno
  cases names with
  | nil => exact hne rfl
  | cons name rest =>
    rw [start, ha, if_neg (by simp), follow_notFolder hno] at hf
    simp at hf

/-- The names from which a relative path is followed are those of folders. -/
theorem Tree.isName_of_mem_start (h : v.Tree) {path : Path} {place : Place}
    (hl : v.Leads path place) : ∀ n ∈ v.start path, Path.IsName n := by
  cases ha : Path.isAbsolute path with
  | true => simp [start, ha]
  | false =>
    have hcurrent : v.get? v.current = some .folder :=
      standing_of_follow ha (Path.components_ne_nil hl.1 ha) hl.2
    rw [start, ha, if_neg (by simp)]
    exact h.isName_below (show v.get? ([] ++ v.current) = some .folder from hcurrent)

theorem Tree.origin_eq_start (h : v.Tree) {path : Path} {place : Place}
    (hl : v.Leads path place) : Path.origin v.currentPath path = (v.start path).reverse := by
  have hstart := h.isName_of_mem_start hl
  cases ha : Path.isAbsolute path with
  | true => simp [Path.origin, start, ha]
  | false =>
    rw [start, ha, if_neg (by simp)] at hstart ⊢
    rw [Path.origin, ha, if_neg (by simp), climb_currentPath hstart]

/-- The names below a path are climbed from the place that the path leads to. -/
theorem Tree.normal_descend (h : v.Tree) {root : Path} {place : Place}
    (hl : v.Leads root place) {names : List Text} (hn : ∀ n ∈ names, Path.IsPiece n) :
    v.normal (Path.descend root names) = Path.climb true place.reverse names := by
  have hroot : Path.climb true (v.start root).reverse (Path.components root) = place :=
    h.climb_of_follow (fun _ => Path.isPiece_of_mem_components) (h.isName_of_mem_start hl) hl.2
  have hsame : Path.origin v.currentPath (Path.descend root names) =
      Path.origin v.currentPath root := by
    rw [Path.origin, Path.origin, Path.isAbsolute_descend hl.1 hn]
  rw [normal, absolute, Path.components_absolute rfl, hsame, h.origin_eq_start hl,
    ← Path.climb_components, Path.components_descend root hn, Path.climb_append, hroot]

theorem Tree.normal_of_leads (h : v.Tree) {path : Path} {place : Place} (hl : v.Leads path place) :
    v.normal path = place := by
  have hnone : ∀ n ∈ ([] : List Text), Path.IsPiece n := by simp
  simpa [Path.climb, Path.descend_nil] using h.normal_descend hl hnone

end Volume

end Inlay
