import Inlay.Proofs.Volume.Links
import Inlay.Proofs.Volume.Removal
import Inlay.Proofs.Volume.Writing

/-!
# Volumes without some files

A path that names an entry after others have been removed named the same entry before
(`Extends.denotes`). So files that are removed one after the other, links on the way or not, take
with them what their paths named in the beginning, and nothing else is gone (`Lacks`). A path that
leads to a folder still does when no link to a folder is among them (`Lacks.isFolder`).
-/

namespace Inlay.Volume

variable {v w : Volume}

/-- A path names the entry at a place; a link at its end is an entry itself. -/
def Denotes (v : Volume) (path : Path) (place : Place) : Prop :=
  v.locate false path (Path.components path) = .ok (.found place)

instance (v : Volume) (path : Path) (place : Place) : Decidable (v.Denotes path place) :=
  inferInstanceAs (Decidable (_ = _))

theorem Denotes.unique {path : Path} {place place' : Place} (h : v.Denotes path place)
    (h' : v.Denotes path place') : place = place' := by
  have he := h.symm.trans h'
  simpa using he

/-! ### The same way with more entries -/

theorem Extends.locate (he : w.Extends v) {toEnd : Bool} {path : Path} {steps : List Text}
    {place : Place} (h : w.locate toEnd path steps = .ok (.found place)) :
    v.locate toEnd path steps = .ok (.found place) :=
  he.carries.locate h

theorem Extends.denotes (he : w.Extends v) {path : Path} {place : Place}
    (h : w.Denotes path place) : v.Denotes path place :=
  he.locate h

theorem Extends.stat (he : w.Extends v) {path : Path} {entry : Entry}
    (h : w.stat path = .ok entry) : v.stat path = .ok entry := by
  obtain ⟨place, hlocate, hentry⟩ := stat_eq_ok_iff.1 h
  exact stat_eq_ok_iff.2 ⟨place, he.locate hlocate, he.get? _ _ hentry⟩

theorem Extends.isFolder (he : w.Extends v) {path : Path} (h : w.isFolder path = true) :
    v.isFolder path = true := by
  obtain ⟨place, hlocate, hfolder⟩ := isFolder_iff.1 h
  exact isFolder_iff.2 ⟨place, he.locate hlocate, he.get? _ _ hfolder⟩

/-! ### Removed entries -/

theorem exists_of_remove {path : Path} (h : v.remove path = .ok w) :
    ∃ place, v.Denotes path place ∧ v.get? place ≠ some .folder ∧ w = v.erase place := by
  unfold remove at h
  cases hlocate : v.locate false path (Path.components path) with
  | error e => simp [hlocate] at h
  | ok landing =>
    cases landing with
    | vacant folder name => simp [hlocate] at h
    | found place =>
      simp only [hlocate] at h
      split at h
      · simp at h
      · next hfile =>
        split at h
        · simp at h
        · exact ⟨place, hlocate, hfile, (Except.ok.inj h).symm⟩

theorem Denotes.remove {path : Path} {place : Place} {entry : Entry} (h : v.Denotes path place)
    (he : v.get? place = some entry) (hfile : entry ≠ .folder) (hname : path.getLast? ≠ some '/') :
    v.remove path = .ok (v.erase place) := by
  have hnot : v.get? place ≠ some .folder := by
    rw [he]
    simpa using hfile
  simp only [Volume.remove, show v.locate false path (Path.components path) = _ from h,
    if_neg hnot, if_neg hname]

/-! ### Entries and folders -/

/-- A name in a folder leads to a folder. -/
def LeadsToFolder (v : Volume) (folder : Place) (name : Text) : Prop :=
  ∃ found, v.follow true linkLimit folder [name] = .ok (.found found) ∧
    v.get? found = some .folder

/-- A name on the way to a folder leads to a folder. -/
theorem leadsToFolder_of_follow {links : Nat} (hle : links ≤ linkLimit) {here found : Place}
    {name : Text} {rest : List Text}
    (h : v.follow true links here (name :: rest) = .ok (.found found))
    (hfound : v.get? found = some .folder) : v.LeadsToFolder here name := by
  obtain ⟨_, mid, _, hname, hrest⟩ := exists_follow_of_append [name] (Or.inl rfl) h
  exact ⟨mid, follow_of_le hle hname, folder_of_follow hrest hfound⟩

/-- A path that goes on with a name from a folder names the entry in that folder. -/
theorem Denotes.exists_folder {path : Path} {place : Place} {names : List Text} {name : Text}
    (hd : v.Denotes path place) (hpath : Path.components path = names ++ [name])
    (hn : Path.IsName name) :
    ∃ folder, v.follow true linkLimit (v.start path) names = .ok (.found folder) ∧
      place = folder ++ [name] := by
  have hfollow := follow_of_locate hd
  rw [hpath] at hfollow
  obtain ⟨_, folder, _, hnames, hlast⟩ :=
    exists_follow_of_append names (Or.inr (by simp)) hfollow
  exact ⟨folder, hnames, eq_of_follow_name hn hlast⟩

theorem Denotes.eq_of_locate {root : Path} (hroot : root ≠ []) {names : List Text} {name : Text}
    (hnames : ∀ n ∈ names, Path.IsName n) (hn : Path.IsName name) {folder place : Place}
    (hd : v.Denotes (Path.descend root (names ++ [name])) place)
    (hlocate : v.locate true (Path.descend root names) (steps (Path.descend root names)) =
      .ok (.found folder)) : place = folder ++ [name] := by
  have hpieces := Path.isPiece_of_isName hnames
  have hall := Path.isPiece_concat hnames hn.isPiece
  have hpath : Path.components (Path.descend root (names ++ [name])) =
      (Path.components root ++ names) ++ [name] := by
    rw [Path.components_descend root hall, List.append_assoc]
  obtain ⟨mid, hmid, rfl⟩ := hd.exists_folder hpath hn
  have hfolder := follow_of_locate hlocate
  rw [start, Path.isAbsolute_descend hroot hall] at hmid
  rw [steps, Path.components_descend root hpieces, start,
    Path.isAbsolute_descend hroot hpieces] at hfolder
  obtain ⟨_, mid', _, hmid', hend⟩ := exists_follow_of_append _ (Or.inl rfl) hfolder
  obtain rfl : mid = mid' := by simpa using hmid.symm.trans hmid'
  rw [eq_of_follow_here hend]

/-- An entry whose state can be read and is not that of a folder is no link to a folder. -/
theorem Denotes.not_leadsToFolder {path : Path} {place : Place} {names : List Text} {name : Text}
    (hd : v.Denotes path place) (hpath : Path.components path = names ++ [name])
    (hn : Path.IsName name) (hlast : path.getLast? ≠ some '/') {entry : Entry}
    (hstat : v.stat path = .ok entry) (hfile : entry ≠ .folder) {folder : Place} {last : Text}
    (hplace : place = folder ++ [last]) : ¬ v.LeadsToFolder folder last := by
  rintro ⟨found, hfound, hfolder⟩
  obtain ⟨mid, hmid, rfl⟩ := hd.exists_folder hpath hn
  obtain ⟨rfl, hname⟩ := List.append_inj' hplace rfl
  obtain rfl : name = last := by simpa using hname
  obtain ⟨end', hlocate, hentry⟩ := stat_eq_ok_iff.1 hstat
  have hfollow := follow_of_locate hlocate
  rw [steps, if_neg hlast, List.append_nil, hpath] at hfollow
  obtain ⟨_, mid', hle, hmid', hend⟩ := exists_follow_of_append names (Or.inl rfl) hfollow
  obtain rfl : mid = mid' := by simpa using hmid.symm.trans hmid'
  -- From the folder there are more links than from where the path starts.
  obtain rfl : found = end' := by simpa using hfound.symm.trans (follow_of_le hle hend)
  exact hfile (Option.some.inj (hentry.symm.trans hfolder))

variable [Alphabet]

/-! ### Named entries -/

/-- A folder that is listed can be listed with more entries, and holds what it held. -/
theorem Extends.list (he : w.Extends v) (hw : w.Sound) (hv : v.Sound) {path : Path}
    {names : List Text} (h : w.list path = .ok names) :
    ∃ names', v.list path = .ok names' ∧ names ⊆ names' := by
  obtain ⟨place, hlocate, hfolder, rfl⟩ := list_eq_ok_iff.1 h
  refine ⟨v.names place, list_eq_ok_iff.2 ⟨place, he.locate hlocate, he.get? _ _ hfolder, rfl⟩,
    fun name hname => ?_⟩
  obtain ⟨entry, hentry⟩ := hw.mem_names_iff.1 hname
  exact hv.mem_names_iff.2 ⟨entry, he.get? _ _ hentry⟩

/-- A way that is followed, or that starts at an entry, leads to an entry. -/
theorem Sound.exists_of_follow (hv : v.Sound) {toEnd : Bool} {links : Nat} {here place : Place}
    {steps : List Text} (hstart : steps = [] → ∃ entry, v.get? here = some entry)
    (h : v.follow toEnd links here steps = .ok (.found place)) :
    ∃ entry, v.get? place = some entry := by
  fun_induction v.follow toEnd links here steps with
  | case1 =>
    obtain rfl := Landing.found.inj (Except.ok.inj h)
    exact hstart rfl
  | case2 _ _ _ hp ih => exact ih (fun _ => ⟨_, hp⟩) h
  | case3 _ _ _ hp _ ih => exact ih (fun _ => ⟨_, hv.folder_dropLast hp⟩) h
  | case7 _ _ _ _ _ _ _ _ _ hlink _ =>
    obtain rfl := Landing.found.inj (Except.ok.inj h)
    exact ⟨_, hlink⟩
  | case9 _ _ _ hp _ _ _ _ _ _ links start ih =>
    refine ih (fun _ => ⟨.folder, ?_⟩) h
    simp only [start]
    split
    · exact v.get?_nil
    · exact hp
  | case10 _ _ _ _ _ _ _ _ entry _ hentry ih => exact ih (fun _ => ⟨_, hentry⟩) h
  | case4 | case5 | case6 | case8 | case11 => simp at h

theorem Sound.exists_of_denotes (hv : v.Sound) {path : Path} {place : Place}
    (h : v.Denotes path place) : ∃ entry, v.get? place = some entry := by
  have hne : path ≠ [] := by
    rintro rfl
    simp [Denotes, locate] at h
  refine hv.exists_of_follow (fun hnil => ?_) (follow_of_locate h)
  -- Only the root has no components.
  have habsolute : path.isAbsolute = true := by
    by_contra ha
    exact Path.components_ne_nil hne (by simpa using ha) hnil
  exact ⟨.folder, by rw [start, if_pos habsolute]; rfl⟩

/-! ### Removing one after the other -/

/-- The entries that some paths named are gone, none of them a folder, and nothing else is. -/
structure Lacks (v w : Volume) (paths : List Path) : Prop where
  sound : w.Sound
  current : w.current = v.current
  limits : w.limits = v.limits
  gone : ∀ path ∈ paths, ∃ place entry, v.Denotes path place ∧ v.get? place = some entry ∧
    entry ≠ .folder ∧ w.get? place = none
  kept : ∀ place, (∀ path ∈ paths, ¬ v.Denotes path place) → w.get? place = v.get? place

theorem Sound.lacks (hv : v.Sound) : v.Lacks v [] :=
  ⟨hv, rfl, rfl, by simp, fun _ _ => rfl⟩

variable {paths : List Path}

theorem Lacks.extends' (h : v.Lacks w paths) : w.Extends v := by
  refine ⟨h.current.symm, h.limits.symm, fun place entry he => ?_⟩
  rw [← he, h.kept]
  intro path hpath hdenotes
  obtain ⟨place', _, hdenotes', _, _, hnone⟩ := h.gone path hpath
  rw [hdenotes.unique hdenotes', hnone] at he
  simp at he

theorem holds_remove {path : Path} (h : v.remove path = .ok w) : v.Holds w := by
  obtain ⟨place, _, hfile, rfl⟩ := exists_of_remove h
  have hne : place ≠ [] := fun hz => hfile (hz ▸ rfl)
  refine ⟨rfl, fun other hother => ?_, fun hs => hs.erase hne hfile⟩
  have hkept : other ≠ place := fun heq => hfile (heq ▸ hother)
  rw [get?_erase hne, if_neg hkept, hother]

/-- As long as nothing has been removed, paths name what they named. -/
theorem Lacks.remove_of_nil (h : v.Lacks w []) {path : Path} {place : Place} {entry : Entry}
    (hd : v.Denotes path place) (he : v.get? place = some entry) (hfile : entry ≠ .folder)
    (hname : path.getLast? ≠ some '/') : w.remove path = .ok (w.erase place) := by
  have hsame : ∀ p, w.get? p = v.get? p := fun p => h.kept p (by simp)
  have hextends : v.Extends w := ⟨h.current, h.limits, fun p entry hp => by rw [hsame, hp]⟩
  exact (hextends.denotes hd).remove (by rw [hsame, he]) hfile hname

theorem Lacks.remove {u : Volume} (h : v.Lacks w paths) {path : Path}
    (hremove : w.remove path = .ok u) : v.Lacks u (paths ++ [path]) := by
  obtain ⟨place, hdenotes, hfile, rfl⟩ := exists_of_remove hremove
  have hne : place ≠ [] := fun hz => hfile (hz ▸ rfl)
  obtain ⟨entry, hentry⟩ := h.sound.exists_of_denotes hdenotes
  have hbefore := h.extends'.denotes hdenotes
  constructor
  · exact h.sound.erase hne hfile
  · exact h.current
  · exact h.limits
  · intro path' hpath'
    rcases List.mem_append.1 hpath' with hpath' | hpath'
    · obtain ⟨place', entry', hd, he, hn, hnone⟩ := h.gone path' hpath'
      refine ⟨place', entry', hd, he, hn, ?_⟩
      rw [get?_erase hne, hnone, ite_self]
    · obtain rfl := List.mem_singleton.1 hpath'
      refine ⟨place, entry, hbefore, h.extends'.get? _ _ hentry, ?_, ?_⟩
      · rintro rfl
        exact hfile hentry
      · rw [get?_erase hne, if_pos rfl]
  · intro place' hothers
    have hother : place' ≠ place := by
      rintro rfl
      exact hothers path (List.mem_append_right _ (List.mem_singleton_self _)) hbefore
    rw [get?_erase hne, if_neg hother]
    exact h.kept place' fun path' hpath' => hothers path' (List.mem_append_left _ hpath')

/-! ### Folders that stay -/

/-- None of some paths names a link to a folder. -/
def LinksNoFolder (v : Volume) (paths : List Path) : Prop :=
  ∀ path ∈ paths, ∀ folder name, v.Denotes path (folder ++ [name]) → ¬ v.LeadsToFolder folder name

theorem Lacks.get?_folder (h : v.Lacks w paths) {place : Place}
    (hp : v.get? place = some .folder) : w.get? place = some .folder := by
  rw [h.kept place fun path hpath hd => ?_, hp]
  obtain ⟨place', entry, hd', he, hfile, _⟩ := h.gone path hpath
  rw [← hd.unique hd', hp] at he
  exact hfile (Option.some.inj he).symm

/-- What is not there any more has been removed by one of the paths. -/
theorem Lacks.exists_of_gone (h : v.Lacks w paths) {place : Place} {entry : Entry}
    (he : v.get? place = some entry) (hgone : w.get? place ≠ some entry) :
    ∃ path ∈ paths, v.Denotes path place := by
  by_contra hno
  simp only [not_exists, not_and] at hno
  exact hgone ((h.kept place hno).trans he)

/-- The way to a folder is still open if no link to a folder has been removed. -/
theorem Lacks.follow_folder (h : v.Lacks w paths) (hlinks : v.LinksNoFolder paths) {links : Nat}
    (hle : links ≤ linkLimit) {here found : Place} {steps : List Text}
    (hfollow : v.follow true links here steps = .ok (.found found))
    (hfound : v.get? found = some .folder) :
    w.follow true links here steps = .ok (.found found) := by
  have hlimits : w.limits = v.limits := h.limits
  fun_induction v.follow true links here steps with
  | case1 => rw [follow_nil, hfollow]
  | case2 _ _ _ hp ih => rw [follow_here (h.get?_folder hp), ih hle hfollow]
  | case3 _ _ _ hp _ ih => rw [follow_above (h.get?_folder hp), ih hle hfollow]
  | case7 _ _ _ _ _ _ _ _ _ _ hlast => simp at hlast
  | case9 here name rest hp hh ha hfits target hlink hgoes links _ ih =>
    have hthrough : v.follow true (links + 1) here (name :: rest) = .ok (.found found) := by
      rw [follow, hp]
      simp only [if_neg hh, if_neg ha, if_neg hfits, hlink, if_neg hgoes]
      exact hfollow
    have hstays : w.get? (here ++ [name]) = some (.link target) := by
      by_contra hgone
      obtain ⟨path, hpath, hd⟩ := h.exists_of_gone hlink hgone
      exact hlinks path hpath here name hd (leadsToFolder_of_follow hle hthrough hfound)
    rw [follow, h.get?_folder hp]
    rw [← hlimits] at hfits
    simp only [if_neg hh, if_neg ha, if_neg hfits, hstays, if_neg hgoes]
    exact ih (Nat.le_of_succ_le hle) hfollow
  | case10 _ _ _ _ hp hh ha hfits entry hnot hentry ih =>
    -- Only a folder lies on the way to a folder.
    have hfolder := folder_of_follow hfollow hfound
    rw [follow, h.get?_folder hp]
    rw [← hlimits] at hfits
    simpa [hh, ha, hfits, h.get?_folder hfolder] using ih hle hfollow
  | case4 | case5 | case6 | case8 | case11 => simp at hfollow

theorem Lacks.isFolder (h : v.Lacks w paths) (hlinks : v.LinksNoFolder paths) {path : Path}
    (hfolder : v.isFolder path = true) : w.isFolder path = true := by
  obtain ⟨place, hlocate, hplace⟩ := isFolder_iff.1 hfolder
  have hfollow := h.follow_folder hlinks (Nat.le_refl _) (follow_of_locate hlocate) hplace
  exact isFolder_iff.2
    ⟨place, locate_of_follow h.current h.limits hlocate hfollow, h.get?_folder hplace⟩

end Inlay.Volume
