import Inlay.Path.Extension
import Inlay.Path.Normal
import Inlay.Proofs.Text.Pieces

/-!
# Components of paths

Paths below a root: `descend` enters one name after another. Its components are those of the root
with the names after them, so names can be read back from a path.
-/

namespace Inlay.Path

/-- What stands between separators. -/
def IsPiece (piece : Text) : Prop :=
  piece ≠ [] ∧ '/' ∉ piece

/-- The names that an entry of a folder may have. -/
def IsName (name : Text) : Prop :=
  name ≠ [] ∧ '/' ∉ name ∧ name ≠ here ∧ name ≠ above

instance (piece : Text) : Decidable (IsPiece piece) :=
  inferInstanceAs (Decidable (_ ∧ _))

instance (name : Text) : Decidable (IsName name) :=
  inferInstanceAs (Decidable (_ ∧ _ ∧ _ ∧ _))

theorem IsName.isPiece {name : Text} (h : IsName name) : IsPiece name := ⟨h.1, h.2.1⟩

theorem isPiece_of_isName {names : List Text} (h : ∀ n ∈ names, IsName n) :
    ∀ n ∈ names, IsPiece n :=
  fun n hn => (h n hn).isPiece

theorem isPiece_concat {names : List Text} {name : Text} (h : ∀ n ∈ names, IsName n)
    (hn : IsPiece name) : ∀ n ∈ names ++ [name], IsPiece n :=
  List.forall_mem_append.2 ⟨isPiece_of_isName h, List.forall_mem_singleton.2 hn⟩

def descend (root : Path) (names : List Text) : Path :=
  names.foldl join root

/-- What has to stand between a path and a name below it. -/
def gap (path : Path) : Text :=
  if path.getLast? = some '/' then [] else ['/']

/-! ### Components -/

theorem components_nil : components [] = [] := rfl

theorem isPiece_of_mem_components {path : Path} {x : Text} (h : x ∈ components path) :
    IsPiece x := by
  obtain ⟨hm, hne⟩ := List.mem_filter.1 h
  exact ⟨by simpa using hne, Text.not_mem_of_mem_split hm⟩

theorem components_append_slash (a b : Path) :
    components (a ++ '/' :: b) = components a ++ components b := by
  simp only [components, Text.split_append_cons, List.filter_append]

theorem components_append_slashes (a tail : Path) (h : ∀ c ∈ tail, (c == '/') = true) :
    components (a ++ tail) = components a := by
  induction tail generalizing a with
  | nil => rw [List.append_nil]
  | cons c tail ih =>
    have hc : c = '/' := by simpa using h c (List.mem_cons_self ..)
    subst hc
    have ht := ih (a ++ ['/']) fun d hd => h d (List.mem_cons_of_mem _ hd)
    rw [List.append_assoc] at ht
    rw [show a ++ '/' :: tail = a ++ (['/'] ++ tail) from rfl, ht, components_append_slash,
      components_nil, List.append_nil]

theorem components_trimEnd (path : Path) :
    components (Text.trimEnd (· == '/') path) = components path := by
  obtain ⟨tail, hpath, htail⟩ := Text.exists_trimEnd_append (· == '/') path
  have hc := components_append_slashes (Text.trimEnd (· == '/') path) tail htail
  rw [← hpath] at hc
  exact hc.symm

theorem components_join {names : List Text} (h : ∀ n ∈ names, IsPiece n) :
    components (Text.join '/' names) = names := by
  cases names with
  | nil => rfl
  | cons n names =>
    rw [components, Text.split_join (by simp) fun m hm => (h m hm).2]
    exact List.filter_eq_self.2 fun m hm => by simpa using (h m hm).1

/-! ### Entering names -/

theorem isAbsolute_piece {name : Text} (h : IsPiece name) : isAbsolute name = false := by
  cases name with
  | nil => rfl
  | cons c rest =>
    have hc : c ≠ '/' := fun e => h.2 (e ▸ List.mem_cons_self ..)
    simp [isAbsolute, hc]

theorem isAbsolute_append {a : Path} (h : a ≠ []) (b : Path) :
    isAbsolute (a ++ b) = isAbsolute a := by
  cases a with
  | nil => exact absurd rfl h
  | cons c a => rfl

theorem getLast?_piece {name : Text} (h : IsPiece name) (lead : Path) :
    (lead ++ name).getLast? ≠ some '/' := by
  rcases List.eq_nil_or_concat name with rfl | ⟨name, c, rfl⟩
  · exact absurd rfl h.1
  · have hc := h.2
    rw [List.concat_eq_append] at hc ⊢
    simp only [List.mem_append, List.mem_singleton, not_or] at hc
    rw [← List.append_assoc, List.getLast?_append]
    simpa using fun e => hc.2 e.symm

theorem join_of_ne_nil {folder path : Path} (hf : folder ≠ []) (hp : isAbsolute path = false) :
    join folder path = folder ++ gap folder ++ path := by
  simp only [join, gap, hp]
  split
  · simp_all
  · split <;> simp

theorem join_nil {path : Path} : join [] path = path := by
  simp [join]

theorem descend_nil (root : Path) : descend root [] = root := rfl

theorem descend_append (root : Path) (xs ys : List Text) :
    descend root (xs ++ ys) = descend (descend root xs) ys := by
  simp [descend]

/-- The names in one folder are spelled after the same text. -/
theorem exists_lead (root : Path) (names : List Text) :
    ∃ lead, ∀ name, IsPiece name → descend root (names ++ [name]) = lead ++ name := by
  by_cases hd : descend root names = []
  · exact ⟨[], fun name _ => by rw [descend_append, hd]; exact join_nil⟩
  · exact ⟨descend root names ++ gap (descend root names), fun name hn => by
      rw [descend_append]
      exact join_of_ne_nil hd (isAbsolute_piece hn)⟩

theorem descend_eq {root : Path} {names : List Text} (hr : root ≠ []) (hne : names ≠ [])
    (h : ∀ n ∈ names, IsPiece n) :
    descend root names = root ++ gap root ++ Text.join '/' names := by
  induction names generalizing root with
  | nil => exact absurd rfl hne
  | cons n names ih =>
    have hn := h n (List.mem_cons_self ..)
    have hj := join_of_ne_nil hr (isAbsolute_piece hn)
    cases names with
    | nil =>
      simp only [descend, List.foldl_cons, List.foldl_nil, hj, Text.join,
        List.intercalate_singleton]
    | cons m names =>
      have hrest : descend (join root n) (m :: names) =
          join root n ++ gap (join root n) ++ Text.join '/' (m :: names) :=
        ih (by simp [hj, hr]) (by simp) fun k hk => h k (List.mem_cons_of_mem _ hk)
      have hgap : gap (join root n) = ['/'] := by
        rw [gap, hj, if_neg (getLast?_piece hn _)]
      rw [show descend root (n :: m :: names) = descend (join root n) (m :: names) from rfl, hrest,
        hgap, hj, Text.join_cons_cons]
      simp

theorem descend_empty {names : List Text} (h : ∀ n ∈ names, IsPiece n) :
    descend [] names = Text.join '/' names := by
  cases names with
  | nil => rfl
  | cons n names =>
    have hn := h n (List.mem_cons_self ..)
    cases names with
    | nil => simp [descend, join_nil, Text.join]
    | cons m names =>
      have hrest : descend n (m :: names) = n ++ gap n ++ Text.join '/' (m :: names) :=
        descend_eq hn.1 (by simp) fun k hk => h k (List.mem_cons_of_mem _ hk)
      have hgap : gap n = ['/'] := by
        have hl := getLast?_piece hn []
        rw [List.nil_append] at hl
        rw [gap, if_neg hl]
      rw [show descend [] (n :: m :: names) = descend (join [] n) (m :: names) from rfl, join_nil,
        hrest, hgap, Text.join_cons_cons]
      simp

theorem components_gap (root path : Path) (hr : root ≠ []) :
    components (root ++ gap root ++ path) = components root ++ components path := by
  rcases List.eq_nil_or_concat root with rfl | ⟨lead, c, rfl⟩
  · exact absurd rfl hr
  · rw [List.concat_eq_append]
    by_cases hc : c = '/'
    · subst hc
      have hg : gap (lead ++ ['/']) = [] := by simp [gap]
      have hl := components_append_slashes lead ['/'] (by simp)
      rw [hg, hl, List.append_nil, List.append_assoc]
      exact components_append_slash lead path
    · have hg : gap (lead ++ [c]) = ['/'] := by simp [gap, hc]
      rw [hg, List.append_assoc]
      exact components_append_slash (lead ++ [c]) path

theorem components_descend (root : Path) {names : List Text} (h : ∀ n ∈ names, IsPiece n) :
    components (descend root names) = components root ++ names := by
  by_cases hr : root = []
  · subst hr
    rw [descend_empty h, components_join h]
    rfl
  · by_cases hne : names = []
    · subst hne
      rw [descend_nil, List.append_nil]
    · rw [descend_eq hr hne h, components_gap root _ hr, components_join h]

theorem descend_injective (root : Path) {xs ys : List Text} (hx : ∀ n ∈ xs, IsPiece n)
    (hy : ∀ n ∈ ys, IsPiece n) (h : descend root xs = descend root ys) : xs = ys := by
  have hc := congrArg components h
  rw [components_descend root hx, components_descend root hy] at hc
  exact List.append_cancel_left hc

theorem isAbsolute_descend {root : Path} (hr : root ≠ []) {names : List Text}
    (h : ∀ n ∈ names, IsPiece n) : isAbsolute (descend root names) = isAbsolute root := by
  by_cases hne : names = []
  · rw [hne, descend_nil]
  · rw [descend_eq hr hne h, List.append_assoc, isAbsolute_append hr]

theorem descend_ne_nil {root : Path} (hr : root ≠ []) {names : List Text}
    (h : ∀ n ∈ names, IsPiece n) : descend root names ≠ [] := by
  by_cases hne : names = []
  · rwa [hne, descend_nil]
  · rw [descend_eq hr hne h]
    simp [hr]

theorem getLast?_descend_concat (root : Path) (names : List Text) {name : Text}
    (h : IsPiece name) : (descend root (names ++ [name])).getLast? ≠ some '/' := by
  rw [descend_append]
  by_cases hd : descend root names = []
  · rw [hd, show descend [] [name] = join [] name from rfl, join_nil]
    simpa using getLast?_piece h []
  · rw [show descend (descend root names) [name] = join (descend root names) name from rfl,
      join_of_ne_nil hd (isAbsolute_piece h)]
    exact getLast?_piece h _

theorem length_le_descend (root : Path) {names : List Text} (h : ∀ n ∈ names, IsPiece n) :
    root.length + names.length ≤ (descend root names).length := by
  induction names generalizing root with
  | nil => exact Nat.le_refl _
  | cons n names ih =>
    have hn := h n (List.mem_cons_self ..)
    have hlen := List.length_pos_iff.2 hn.1
    have hrest := ih (join root n) fun m hm => h m (List.mem_cons_of_mem _ hm)
    have hj : root.length + 1 ≤ (join root n).length := by
      by_cases hr : root = []
      · rw [hr, join_nil]
        exact hlen
      · rw [join_of_ne_nil hr (isAbsolute_piece hn), List.length_append, List.length_append]
        omega
    rw [show descend root (n :: names) = descend (join root n) names from rfl, List.length_cons]
    omega

end Inlay.Path
