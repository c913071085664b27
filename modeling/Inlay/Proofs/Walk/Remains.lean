import Inlay.Proofs.Volume.Lacking
import Inlay.Proofs.Walk.Spending

/-!
# Walks of what is left

Without faults a walk below a folder never fails (`exists_foundBelow_of_isFolder`). On a volume with
fewer entries it returns no file that it did not return before, as long as folders are still folders
(`Found.of_extends`): they are if only files have been taken that the walk has returned, except for
links to folders that it took for files (`Found.not_leadsToFolder`).
-/

namespace Inlay.Walk

open Inlay.Action

variable {s t : Workspace} {policy : StatPolicy} {retries : Int} {root path : Path}
  {way : List Text}

/-! ### Without faults -/

theorem exists_stat_of_classified (h : Classified s policy retries path) :
    ∃ entry, s.volume.stat path = .ok entry := by
  unfold Classified failedReadings at h
  cases hstat : s.volume.stat path with
  | ok entry => exact ⟨entry, rfl⟩
  | error e => simp [hstat] at h

theorem classified_iff (hs : s.faults = []) :
    Classified s policy retries path ↔ ∃ entry, s.volume.stat path = .ok entry := by
  refine ⟨exists_stat_of_classified, fun ⟨entry, hstat⟩ => ?_⟩
  have hnone : failures .stat path s.faults = 0 := by
    rw [hs]
    rfl
  rw [Classified, failedReadings, hstat]
  simpa [hnone] using attempts_pos policy retries

theorem classified_of_isFolder (hs : s.faults = []) (h : s.volume.isFolder path = true) :
    Classified s policy retries path := by
  obtain ⟨place, hlocate, hfolder⟩ := Volume.isFolder_iff.1 h
  exact (classified_iff hs).2 ⟨.folder, Volume.stat_eq_ok_iff.2 ⟨place, hlocate, hfolder⟩⟩

theorem listing_of_list (hs : s.faults = []) {names : List Text}
    (h : s.volume.list path = .ok names) : listing s path = .ok names := by
  simp [listing, hs, planned, h]

theorem exists_listing_of_isFolder (hs : s.faults = []) (h : s.volume.isFolder path = true) :
    ∃ names, listing s path = .ok names := by
  obtain ⟨place, hlocate, hfolder⟩ := Volume.isFolder_iff.1 h
  exact ⟨_, listing_of_list hs (Volume.list_eq_ok_iff.2 ⟨place, hlocate, hfolder, rfl⟩)⟩

theorem Reached.isFolder (hroot : s.volume.isFolder root = true)
    (h : Reached s policy retries root way) : s.volume.isFolder (Path.descend root way) = true := by
  rcases List.eq_nil_or_concat' way with rfl | ⟨lead, name, rfl⟩
  · exact hroot
  · exact (h lead name (List.prefix_refl _)).2.2

theorem exists_foundBelow_of_isFolder [Alphabet] (hv : s.volume.Sound) (hs : s.faults = [])
    (hroot : s.volume.isFolder root = true) (policy : StatPolicy) (retries : Int) :
    ∃ found, FoundBelow s policy retries root [[]] found ∧
      ∀ t, Fresh s root 0 t → ∃ u, u.volume = s.volume ∧
        (files policy retries root).runOn t = (.ok (found.map (Path.descend root)), u) := by
  refine (files_gives_of_fresh hv policy retries root).resolve_right ?_
  rintro ⟨way, e, hr, he, _⟩
  obtain ⟨names, hlisted⟩ := exists_listing_of_isFolder hs (hr.isFolder hroot)
  rw [hlisted] at he
  simp at he

/-- Does a walk without faults return an entry? -/
def returns (v : Volume) (policy : StatPolicy) (path : Path) : Bool :=
  match v.stat path with
  | .ok entry => entry != .folder
  | .error _ => policy == .assumeFile

theorem leaf_iff (hs : s.faults = []) :
    Leaf s policy retries path ↔ returns s.volume policy path = true := by
  unfold Leaf returns
  rw [classified_iff hs, Volume.isFolder]
  cases s.volume.stat path with
  | ok entry => cases entry <;> simp
  | error e => simp

/-- The ways that a walk without faults takes are those that start at the root and go on to every
folder in a folder. -/
theorem reached_iff_of_fixed (hs : s.faults = []) {ways : List (List Text)}
    (h : [] :: (childrenOf s root ways).filter
      (fun way => s.volume.isFolder (Path.descend root way)) = ways) :
    Reached s policy retries root way ↔ way ∈ ways := by
  have hmem {way : List Text} : way ∈ ways ↔ way = [] ∨
      way ∈ childrenOf s root ways ∧ s.volume.isFolder (Path.descend root way) = true := by
    conv => lhs; rw [← h]
    rw [List.mem_cons, List.mem_filter]
  induction way using List.reverseRecOn with
  | nil => exact ⟨fun _ => hmem.2 (Or.inl rfl), fun _ => reached_nil⟩
  | append_singleton way name ih =>
    constructor
    · intro hr
      obtain ⟨hname, _, hfolder⟩ := hr way name (List.prefix_refl _)
      have hway := ih.1 fun lead n hp => hr lead n (hp.trans (List.prefix_append ..))
      exact hmem.2 (Or.inr ⟨mem_childrenOf.2 ⟨way, hway, name, hname, rfl⟩, hfolder⟩)
    · intro hw
      obtain ⟨hchild, hfolder⟩ := (hmem.1 hw).resolve_left (by simp)
      obtain ⟨lead, hlead, n, hname, heq⟩ := mem_childrenOf.1 hchild
      obtain ⟨rfl, hn⟩ := List.append_inj' heq rfl
      obtain rfl : name = n := by simpa using hn
      exact (ih.2 hlead).concat hname ⟨classified_of_isFolder hs hfolder, hfolder⟩

theorem FoundBelow.perm_of_fixed [Alphabet] (hs : s.faults = []) (hv : s.volume.Sound)
    {ways found : List (List Text)} (hnodup : ways.Nodup)
    (h : [] :: (childrenOf s root ways).filter
      (fun way => s.volume.isFolder (Path.descend root way)) = ways)
    (hfound : FoundBelow s policy retries root [[]] found) :
    found.Perm ((childrenOf s root ways).filter
      fun way => returns s.volume policy (Path.descend root way)) := by
  refine (List.perm_ext_iff_of_nodup hfound.nodup ((nodup_childrenOf hv hnodup).filter _)).2
    fun way => ?_
  rw [hfound.mem, List.mem_filter, mem_childrenOf, ← leaf_iff hs]
  constructor
  · rintro ⟨⟨lead, name, rfl, hr, hname, hleaf⟩, _⟩
    exact ⟨⟨lead, (reached_iff_of_fixed hs h).1 hr, name, hname, rfl⟩, hleaf⟩
  · rintro ⟨⟨lead, hlead, name, hname, rfl⟩, hleaf⟩
    exact ⟨⟨lead, name, rfl, (reached_iff_of_fixed hs h).2 hlead, hname, hleaf⟩, [],
      List.mem_singleton_self _, List.nil_prefix⟩

/-! ### With fewer entries -/

section
variable (hs : s.faults = []) (ht : t.faults = []) (he : t.volume.Extends s.volume)
include hs ht he

theorem Enters.of_extends (h : Enters t policy retries path) : Enters s policy retries path := by
  obtain ⟨entry, hstat⟩ := (classified_iff ht).1 h.1
  exact ⟨(classified_iff hs).2 ⟨entry, he.stat hstat⟩, he.isFolder h.2⟩

/-- A leaf was a leaf before if folders are still folders. -/
theorem Leaf.of_extends (hfolder : s.volume.isFolder path = true → t.volume.isFolder path = true)
    (h : Leaf t policy retries path) : Leaf s policy retries path := by
  rcases h with ⟨hread, hnot⟩ | ⟨hpolicy, hunread⟩
  · obtain ⟨entry, hstat⟩ := (classified_iff ht).1 hread
    refine Or.inl ⟨(classified_iff hs).2 ⟨entry, he.stat hstat⟩, ?_⟩
    rw [Volume.isFolder, he.stat hstat]
    rwa [Volume.isFolder, hstat] at hnot
  · by_cases hread : Classified s policy retries path
    · refine Or.inl ⟨hread, ?_⟩
      by_contra hnot
      exact hunread (classified_of_isFolder ht (hfolder (by simpa using hnot)))
    · exact Or.inr ⟨hpolicy, hread⟩

variable [Alphabet] (hvs : s.volume.Sound) (hvt : t.volume.Sound)
include hvs hvt

omit ht in
theorem mem_namesIn_of_extends {name : Text} (h : name ∈ namesIn t path) :
    name ∈ namesIn s path := by
  obtain ⟨names, hlist, hsub⟩ := he.list hvt hvs (list_of_mem_namesIn h)
  rw [namesIn, listing_of_list hs hlist]
  exact hsub h

theorem Reached.of_extends (h : Reached t policy retries root way) :
    Reached s policy retries root way := fun lead name hp =>
  ⟨mem_namesIn_of_extends hs he hvs hvt (h lead name hp).1,
    Enters.of_extends hs ht he (h lead name hp).2⟩

theorem Found.of_extends
    (hfolders : ∀ path, s.volume.isFolder path = true → t.volume.isFolder path = true)
    (h : Found t policy retries root way) : Found s policy retries root way := by
  obtain ⟨lead, name, rfl, hr, hname, hleaf⟩ := h
  exact ⟨lead, name, rfl, hr.of_extends hs ht he hvs hvt,
    mem_namesIn_of_extends hs he hvs hvt hname,
    hleaf.of_extends hs ht he (hfolders _)⟩

end

/-- What a walk returns is there: its path named the same entry when there were more. -/
theorem Found.get?_ne_none [Alphabet] (hvt : t.volume.Sound) (he : t.volume.Extends s.volume)
    (hroot : root ≠ []) (h : Found t policy retries root way) {place : Place}
    (hd : s.volume.Denotes (Path.descend root way) place) : t.volume.get? place ≠ none := by
  obtain ⟨lead, name, rfl, hr, hname, _⟩ := h
  obtain ⟨folder, hlocate, _, hnames⟩ := Volume.list_eq_ok_iff.1 (list_of_mem_namesIn hname)
  rw [hd.eq_of_locate hroot (hr.isName hvt) (isName_of_mem_namesIn hvt hname) (he.locate hlocate)]
  rw [← hnames] at hname
  obtain ⟨entry, hentry⟩ := hvt.mem_names_iff.1 hname
  simp [hentry]

/-- What a walk returns is no link to a folder, unless it is only taken for a file. -/
theorem Found.not_leadsToFolder [Alphabet] (hv : s.volume.Sound) (hpolicy : policy ≠ .assumeFile)
    (h : Found s policy retries root way) {folder : Place} {last : Text}
    (hd : s.volume.Denotes (Path.descend root way) (folder ++ [last])) :
    ¬ s.volume.LeadsToFolder folder last := by
  have hpieces := Path.isPiece_of_isName (h.isName hv)
  obtain ⟨lead, name, rfl, hr, hname, hleaf⟩ := h
  have hn := isName_of_mem_namesIn hv hname
  obtain ⟨hread, hnot⟩ := hleaf.resolve_right fun hassumed => hpolicy hassumed.1
  obtain ⟨entry, hstat⟩ := exists_stat_of_classified hread
  have hpath : Path.components (Path.descend root (lead ++ [name])) =
      (Path.components root ++ lead) ++ [name] := by
    rw [Path.components_descend root hpieces, List.append_assoc]
  refine hd.not_leadsToFolder hpath hn (Path.getLast?_descend_concat root lead hn.isPiece) hstat
    ?_ rfl
  rintro rfl
  simp [Volume.isFolder, hstat] at hnot

end Inlay.Walk
