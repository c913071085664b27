import Inlay.Proofs.Path.Outputs
import Inlay.Proofs.Volume.Ways

/-!
# Making folders and files in a tree

In a folder that exists a folder is made where nothing stands (`makeFolder_descend`), and a file is
written or removed at its place (`write_descend`, `remove_descend`). Folders on one way that are
made in a row come to a volume with nothing new but them (`Grown`).
-/

namespace Inlay.Volume

variable {v : Volume}

theorem Leads.tidy {root : Path} {place : Place} (h : v.Leads root place) :
    v.Leads (Path.tidy root) place := by
  refine ⟨(Path.tidied_tidy root).ne_nil, ?_⟩
  rw [Path.components_tidy, start, Path.isAbsolute_tidy h.1]
  exact h.2

theorem parentAndName_descend {root : Path} (hr : Path.Tidied root) {names : List Text}
    {name : Text} (h : ∀ n ∈ names, Path.IsPiece n) (hn : Path.IsPiece name) :
    parentAndName (Path.descend root (names ++ [name])) = (Path.descend root names, name) := by
  have hb := Path.base_descend root names hn
  rw [parentAndName, hb, if_neg (by simpa using hn.1), Path.folder_descend hr h hn]

variable [Alphabet]

/-- Only folders on the way below a place have been added. -/
structure Grown (v w : Volume) (place : Place) (names : List Text) : Prop where
  tree : w.Tree
  extends' : v.Extends w
  folder : w.get? (place ++ names) = some .folder
  only : ∀ p entry, w.get? p = some entry →
    v.get? p = some entry ∨ entry = .folder ∧ p <+: place ++ names

theorem Tree.grown (h : v.Tree) {place : Place} {names : List Text}
    (hf : v.get? (place ++ names) = some .folder) : v.Grown v place names :=
  ⟨h, Extends.refl v, hf, fun _ _ he => Or.inl he⟩

theorem Grown.put {w : Volume} {place : Place} {names : List Text} (h : v.Grown w place names)
    {name : Text} (hn : Path.IsName name) (hu : Path.IsUsable name)
    (he : w.get? (place ++ (names ++ [name])) = none) :
    v.Grown (w.put (place ++ (names ++ [name])) .folder) place (names ++ [name]) := by
  rw [← List.append_assoc] at he ⊢
  have hne : place ++ names ++ [name] ≠ [] := by simp
  refine ⟨h.tree.put h.folder hn hu rfl (by rw [he]; simp), h.extends'.trans (extends_put hne he _),
    ?_, fun p entry hp => ?_⟩
  · rw [get?_put hne, if_pos (by simp)]
  · rw [get?_put hne] at hp
    split at hp
    · next heq =>
      simp only [Option.some.injEq] at hp
      exact Or.inr ⟨hp.symm, [], by rw [heq, List.append_nil, List.append_assoc]⟩
    · rcases h.only p entry hp with ho | ⟨hf, hpre⟩
      · exact Or.inl ho
      · refine Or.inr ⟨hf, hpre.trans ?_⟩
        rw [← List.append_assoc]
        exact List.prefix_append _ _

theorem Grown.get?_beyond {w : Volume} {place : Place} {names : List Text}
    (hg : v.Grown w place names) (name : Text) :
    w.get? (place ++ (names ++ [name])) = v.get? (place ++ (names ++ [name])) := by
  have hnot : ¬ place ++ (names ++ [name]) <+: place ++ names := fun hp => by
    have hlen := hp.length_le
    simp only [List.length_append, List.length_singleton] at hlen
    omega
  cases he : w.get? (place ++ (names ++ [name])) with
  | some entry =>
    rcases hg.only _ entry he with ho | ⟨_, hp⟩
    · exact ho.symm
    · exact absurd hp hnot
  | none =>
    cases ho : v.get? (place ++ (names ++ [name])) with
    | none => rfl
    | some entry => simp [hg.extends'.get? _ entry ho] at he

theorem Grown.extend {w : Volume} {place : Place} {names names' : List Text}
    (hg : v.Grown w place names) (hp : names <+: names')
    (hf : w.get? (place ++ names') = some .folder) :
    v.Grown w place names' where
  tree := hg.tree
  extends' := hg.extends'
  folder := hf
  only p entry he := (hg.only p entry he).imp_right fun h =>
    ⟨h.1, h.2.trans ((List.prefix_append_right_inj place).2 hp)⟩

/-! ### Single steps -/

/-- The names of a folder itself and of the one above it lead to folders, never to a file. -/
theorem Tree.follow_notName (h : v.Tree) {place : Place} {name : Text} (hn : Path.IsPiece name)
    (hnot : ¬ Path.IsName name) (hp : v.get? place = some .folder) (toEnd : Bool) (links : Nat) :
    ∃ found, v.follow toEnd links place [name] = .ok (.found found) ∧
      v.get? found = some .folder := by
  by_cases hh : name = Path.here
  · exact ⟨place, by rw [hh, follow_here hp, follow_nil], hp⟩
  · by_cases ha : name = Path.above
    · refine ⟨place.dropLast, by rw [ha, follow_above hp, follow_nil], ?_⟩
      rcases List.eq_nil_or_concat place with hz | ⟨lead, last, hc⟩
      · rw [hz]
        rfl
      · rw [List.concat_eq_append] at hc
        rw [hc] at hp ⊢
        rw [List.dropLast_concat]
        exact (h.child hp).1
    · exact absurd ⟨hn.1, hn.2, hh, ha⟩ hnot

section
variable (h : v.Tree) {root : Path} {place : Place} (hl : v.Leads root place) {names : List Text}
  {name : Text}
include h hl

theorem Tree.locate_piece (hn : Path.IsPiece name) (hp : v.get? (place ++ names) = some .folder)
    (toEnd : Bool) :
    v.locate toEnd (Path.descend root (names ++ [name]))
        (Path.components (Path.descend root (names ++ [name]))) =
      v.follow true linkLimit (place ++ names) [name] := by
  have hnames := Path.isPiece_of_isName (h.isName_below hp)
  have hall : ∀ n ∈ names ++ [name], Path.IsPiece n := by
    intro n hm
    rcases List.mem_append.1 hm with hm | hm
    · exact hnames n hm
    · rwa [List.mem_singleton.1 hm]
  have hlead := h.leads_descend hl hp
  have hs : v.start (Path.descend root (names ++ [name])) = v.start (Path.descend root names) := by
    rw [start, start, Path.isAbsolute_descend hl.1 hall, Path.isAbsolute_descend hl.1 hnames]
  have hc : Path.components (Path.descend root (names ++ [name])) =
      Path.components (Path.descend root names) ++ [name] := by
    rw [Path.components_descend root hall, Path.components_descend root hnames, List.append_assoc]
  rw [h.locate (Path.descend_ne_nil hl.1 hall), hs, hc, h.follow_append hlead.2]

theorem Tree.write_notName (hn : Path.IsPiece name) (hnot : ¬ Path.IsName name)
    (hp : v.get? (place ++ names) = some .folder) (content : Bytes) :
    v.write (Path.descend root (names ++ [name])) content = .error .isFolder := by
  have hlast := Path.getLast?_descend_concat root names hn
  obtain ⟨found, hfollow, hfolder⟩ := h.follow_notName hn hnot hp true linkLimit
  rw [write, target, if_neg hlast, h.locate_piece hl hn hp, hfollow]
  simp only [hfolder, if_true]
  rfl

variable (hn : Path.IsName name)
include hn

theorem Tree.locate_descend (hp : v.get? (place ++ names) = some .folder) (toEnd : Bool) :
    v.locate toEnd (Path.descend root (names ++ [name]))
        (Path.components (Path.descend root (names ++ [name]))) =
      match v.get? (place ++ (names ++ [name])) with
      | none => .ok (.vacant (place ++ names) name)
      | some _ => .ok (.found (place ++ (names ++ [name]))) := by
  rw [h.locate_piece hl hn.isPiece hp, h.follow_name hp hn.2.2.1 hn.2.2.2, List.append_assoc]
  cases v.get? (place ++ (names ++ [name])) with
  | none => rfl
  | some entry => rw [follow_nil]

theorem Tree.makeFolder_descend (hp : v.get? (place ++ names) = some .folder) :
    v.makeFolder (Path.descend root (names ++ [name])) =
      match v.get? (place ++ (names ++ [name])) with
      | none => .ok (v.put (place ++ (names ++ [name])) .folder)
      | some _ => .error .taken := by
  rw [makeFolder, h.locate_descend hl hn hp]
  cases v.get? (place ++ (names ++ [name])) with
  | none => simp only [List.append_assoc]
  | some entry => rfl

theorem Tree.write_descend (hp : v.get? (place ++ names) = some .folder)
    (hf : v.get? (place ++ (names ++ [name])) ≠ some .folder) (content : Bytes) :
    v.write (Path.descend root (names ++ [name])) content =
      .ok (v.put (place ++ (names ++ [name])) (.file content)) := by
  have hlast := Path.getLast?_descend_concat root names hn.isPiece
  have ht : v.target (Path.descend root (names ++ [name])) =
      .ok (place ++ (names ++ [name])) := by
    rw [target, if_neg hlast, h.locate_descend hl hn hp]
    cases he : v.get? (place ++ (names ++ [name])) with
    | none => simp only [List.append_assoc]
    | some entry => simp only [he] at hf ⊢; rw [if_neg hf]
  rw [write, ht]
  rfl

theorem Tree.write_folder (hf : v.get? (place ++ (names ++ [name])) = some .folder)
    (content : Bytes) :
    v.write (Path.descend root (names ++ [name])) content = .error .isFolder := by
  have hlast := Path.getLast?_descend_concat root names hn.isPiece
  have hp := (h.child (by rw [List.append_assoc, hf])).1
  rw [write, target, if_neg hlast, h.locate_descend hl hn hp, hf]
  simp only [hf, if_true]
  rfl

theorem Tree.remove_descend {content : Bytes}
    (hf : v.get? (place ++ (names ++ [name])) = some (.file content)) :
    v.remove (Path.descend root (names ++ [name])) =
      .ok (v.erase (place ++ (names ++ [name]))) := by
  have hlast := Path.getLast?_descend_concat root names hn.isPiece
  have hc : v.get? (place ++ names ++ [name]) = some (.file content) := by
    rw [List.append_assoc, hf]
  have hp := (h.child hc).1
  rw [remove, h.locate_descend hl hn hp, hf]
  simp only [hf, if_neg hlast]
  rw [if_neg (by simp)]

end

/-! ### Folders -/

theorem Tree.hasEntry_of_leads (h : v.Tree) {path : Path} {place : Place}
    (hl : v.Leads path place) (he : v.get? place = some .folder) : v.hasEntry path = true := by
  simp [hasEntry, h.stat_of_leads hl he fun _ => rfl, Except.toOption]

theorem Tree.found_names (h : v.Tree) {place found : Place} {names : List Text}
    (hn : ∀ n ∈ names, Path.IsName n) {toEnd : Bool} {links : Nat}
    (hf : v.follow toEnd links place names = .ok (.found found)) : found = place ++ names := by
  induction names generalizing place with
  | nil =>
    rw [follow_nil] at hf
    simpa using hf.symm
  | cons n names ih =>
    have hname := hn n (List.mem_cons_self ..)
    by_cases hp : v.get? place = some .folder
    · rw [h.follow_name hp hname.2.2.1 hname.2.2.2] at hf
      cases hs : v.get? (place ++ [n]) with
      | none =>
        simp only [hs] at hf
        split at hf <;> simp at hf
      | some entry =>
        simp only [hs] at hf
        have hi := ih (fun m hm => hn m (List.mem_cons_of_mem _ hm)) hf
        simpa using hi
    · rw [follow_notFolder hp] at hf
      simp at hf

theorem Tree.get?_of_stat (h : v.Tree) {root : Path} {place : Place} (hl : v.Leads root place)
    {names : List Text} (hn : ∀ n ∈ names, Path.IsName n) {entry : Entry}
    (hs : v.stat (Path.descend root names) = .ok entry) : v.get? (place ++ names) = some entry := by
  obtain ⟨found, hfound, hget⟩ := h.exists_leads_of_stat hs
  have hfollow := hfound.2
  have hpieces := Path.isPiece_of_isName hn
  rw [start, Path.isAbsolute_descend hl.1 hpieces, ← start,
    Path.components_descend root hpieces, h.follow_append hl.2] at hfollow
  rwa [h.found_names hn hfollow] at hget

theorem Tree.exists_entry_of_hasEntry (h : v.Tree) {root : Path} {place : Place}
    (hl : v.Leads root place) {names : List Text} (hn : ∀ n ∈ names, Path.IsName n)
    (he : v.hasEntry (Path.descend root names) = true) :
    ∃ entry, v.get? (place ++ names) = some entry := by
  cases hs : v.stat (Path.descend root names) with
  | error e => simp [hasEntry, hs, Except.toOption] at he
  | ok entry => exact ⟨entry, h.get?_of_stat hl hn hs⟩

theorem Tree.folder_of_isFolder (h : v.Tree) {root : Path} {place : Place} (hl : v.Leads root place)
    {names : List Text} (hn : ∀ n ∈ names, Path.IsName n)
    (hf : v.isFolder (Path.descend root names) = true) :
    v.get? (place ++ names) = some .folder := by
  unfold isFolder at hf
  split at hf
  · next hs => exact h.get?_of_stat hl hn hs
  · simp at hf

theorem Tree.hasEntry_folder (h : v.Tree) {path : Path} {place : Place} (hl : v.Leads path place)
    (hb : Path.base path ≠ []) (hf : Path.folder path ≠ []) :
    v.hasEntry (Path.folder path) = true := by
  have hfollow := hl.2
  rw [Path.components_folder hb] at hfollow
  obtain ⟨mid, hm⟩ := h.exists_follow_of_append hfollow
  have hmid : v.get? mid = some .folder := by
    rw [h.follow_append hm] at hfollow
    by_cases hd : v.get? mid = some .folder
    · exact hd
    · rw [follow_notFolder hd] at hfollow
      simp at hfollow
  rw [start, Path.isAbsolute_folder hf, ← start] at hm
  exact h.hasEntry_of_leads ⟨hf, hm⟩ hmid

/-- Above a root that leads to a folder nothing is left to be made. -/
theorem Tree.parent_of_tidied (h : v.Tree) {root : Path} (hr : Path.Tidied root) {place : Place}
    (hl : v.Leads root place) : (parentAndName root).1 = [] ∨ (parentAndName root).2 = [] ∨
      v.hasEntry (parentAndName root).1 = true := by
  rcases hr with rfl | ⟨hne, hs⟩
  · exact Or.inr (Or.inl rfl)
  · have hb := Path.base_ne_nil hne hs
    simp only [parentAndName, List.isEmpty_iff, if_neg hb]
    by_cases hf : Path.folder root = []
    · exact Or.inl hf
    · exact Or.inr (Or.inr (h.hasEntry_folder hl hb hf))

end Inlay.Volume
