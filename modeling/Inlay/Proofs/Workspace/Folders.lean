import Inlay.Proofs.Volume.Blocked
import Inlay.Proofs.Volume.Writing
import Inlay.Proofs.Workspace.Faults
import Mathlib.Data.List.Induction

/-!
# Making folders

Folders are made in a row, down to the first that cannot be: a file stands in its place, or making
it fails (`Barred`). How far this goes and how it ends depends on the files on the way and on the
faults, and not on the folders that others have made there (`exists_makeFolders`).
-/

namespace Inlay.Action

section
variable (plan : List PlannedFault) (v : Volume) (root : Path) (place : Place)

/-- A folder below the root is there, or nothing fails that makes it. -/
def Passable (lead : List Text) : Prop :=
  v.get? (place ++ lead) = some .folder ∨
    (planned .makeFolder (Path.descend root lead) plan).1 = none

/-- On the way there is a file, or a folder that cannot be made. -/
def Barred (names : List Text) : Prop :=
  ∃ lead, lead <+: names ∧ (v.FileAt (place ++ lead) ∨ ¬ Passable plan v root place lead)

/-- On the way there are the files that were there, and no folder has gone. Others are there only if
they could be made. -/
structure Along [Alphabet] (names : List Text) (w : Volume) : Prop where
  tree : w.Tree
  leads : w.Leads root place
  files : ∀ lead, lead <+: names → (w.FileAt (place ++ lead) ↔ v.FileAt (place ++ lead))
  folders : ∀ lead, lead <+: names → v.get? (place ++ lead) = some .folder →
    w.get? (place ++ lead) = some .folder
  passable : ∀ lead, lead <+: names → w.get? (place ++ lead) = some .folder →
    Passable plan v root place lead

end

variable {plan : List PlannedFault} {v w : Volume} {root : Path} {place : Place}
  {names : List Text} {name : Text}

/-! ### What bars a way -/

theorem not_barred_nil (hp : v.get? place = some .folder) : ¬ Barred plan v root place [] := by
  rintro ⟨lead, hlead, hbar⟩
  obtain rfl := List.prefix_nil.1 hlead
  rw [List.append_nil] at hbar
  rcases hbar with ⟨content, hfile⟩ | hnot
  · simp [hp] at hfile
  · exact hnot (Or.inl (by rw [List.append_nil, hp]))

theorem barred_concat_iff : Barred plan v root place (names ++ [name]) ↔
    Barred plan v root place names ∨ v.FileAt (place ++ (names ++ [name])) ∨
      ¬ Passable plan v root place (names ++ [name]) := by
  constructor
  · rintro ⟨lead, hlead, hbar⟩
    rcases List.prefix_concat_iff.1 hlead with rfl | hlead
    · exact Or.inr hbar
    · exact Or.inl ⟨lead, hlead, hbar⟩
  · rintro (⟨lead, hlead, hbar⟩ | hbar)
    · exact ⟨lead, hlead.trans (List.prefix_append _ _), hbar⟩
    · exact ⟨_, List.prefix_refl _, hbar⟩

theorem Barred.mono {names' : List Text} (h : Barred plan v root place names)
    (hp : names <+: names') : Barred plan v root place names' := by
  obtain ⟨lead, hlead, hbar⟩ := h
  exact ⟨lead, hlead.trans hp, hbar⟩

/-- Without faults only files bar a way. -/
theorem barred_nil_plan_iff : Barred [] v root place names ↔
    ∃ lead, lead <+: names ∧ v.FileAt (place ++ lead) := by
  have hpass (lead : List Text) : Passable [] v root place lead := Or.inr rfl
  simp only [Barred, hpass, not_true_eq_false, or_false]

variable [Alphabet]

theorem Along.prefix {names' : List Text} (h : Along plan v root place names' w)
    (hp : names <+: names') : Along plan v root place names w where
  tree := h.tree
  leads := h.leads
  files lead hlead := h.files lead (hlead.trans hp)
  folders lead hlead := h.folders lead (hlead.trans hp)
  passable lead hlead := h.passable lead (hlead.trans hp)

/-- Where a way is barred there is no folder at its end. -/
theorem Along.not_folder (h : Along plan v root place names w)
    (hb : Barred plan v root place names) : w.get? (place ++ names) ≠ some .folder := by
  intro hfolder
  obtain ⟨lead, hlead, hbar⟩ := hb
  have habove : w.get? (place ++ lead) = some .folder := by
    obtain ⟨rest, rfl⟩ := id hlead
    by_cases hz : rest = []
    · rwa [hz, List.append_nil] at hfolder
    · rw [← List.append_assoc] at hfolder
      exact h.tree.folder_of_below hfolder hz
  rcases hbar with hfile | hnot
  · exact ((h.files lead hlead).2 hfile).not_folder habove
  · exact hnot (h.passable lead hlead habove)

/-- Making folders as far as that goes does not change what bars the way. -/
theorem Along.grown {u : Volume} {reach : List Text} (h : Along plan v root place names w)
    (hopen : ¬ Barred plan v root place reach) (hg : w.Grown u place reach) :
    Along plan v root place names u where
  tree := hg.tree
  leads := hg.extends'.leads h.tree hg.tree h.leads
  files lead hlead := (hg.fileAt_iff _).trans (h.files lead hlead)
  folders lead hlead hv := hg.extends'.get? _ _ (h.folders lead hlead hv)
  passable lead hlead hu := by
    rcases hg.only _ _ hu with hw | ⟨_, hp⟩
    · exact h.passable lead hlead hw
    · by_contra hnot
      exact hopen ⟨lead, (List.prefix_append_right_inj place).1 hp, Or.inr hnot⟩

theorem Along.isFolder_eq_false (h : Along plan v root place (names ++ [name]) w)
    (hn : ∀ n ∈ names, Path.IsName n) (hname : Path.IsName name)
    (hb : Barred plan v root place (names ++ [name])) :
    w.isFolder (Path.descend root (names ++ [name])) = false := by
  rw [Bool.eq_false_iff]
  exact fun hfolder => h.not_folder hb (h.tree.folder_of_isFolder h.leads
    (List.forall_mem_append.2 ⟨hn, List.forall_mem_singleton.2 hname⟩) hfolder)

/-- Where a way is barred there is a file at its end, or nothing. -/
theorem Along.eq_none (h : Along plan v root place names w) (hb : Barred plan v root place names)
    (hfile : ¬ v.FileAt (place ++ names)) : w.get? (place ++ names) = none := by
  cases he : w.get? (place ++ names) with
  | none => rfl
  | some entry =>
    cases entry with
    | folder => exact absurd he (h.not_folder hb)
    | link target => exact absurd he h.tree.not_link
    | file content => exact absurd ((h.files _ (List.prefix_refl _)).1 ⟨content, he⟩) hfile

/-! ### Adding one folder -/

section
variable {path : Path} (hu : Path.IsUsable path)
include hu

/-- The first error is what is told. -/
theorem exists_runOn_makeFolder_error {s : Workspace} {errno : Errno} (hl : Lasts plan s.faults)
    (he : (planned .makeFolder path plan).1 = none → s.volume.makeFolder path = .error errno) :
    ∃ t, (makeFolder true path).runOn s =
        (.error (.os (.of ((planned .makeFolder path plan).1.getD errno) path)), t) ∧
      Lasts plan t.faults ∧ t.volume = s.volume := by
  cases hp : (planned .makeFolder path plan).1 with
  | some fault =>
    have hguard : (guard .makeFolder path).runOn s = (.error (.os (.of fault path)),
        { s with faults := (planned .makeFolder path s.faults).2 }) := by
      rw [runOn_guard, hl.same, hp]
    exact ⟨_, runOn_bind_of_error hguard, hl.planned .makeFolder path, rfl⟩
  | none =>
    have hguard := runOn_guard_of_none ((hl.same .makeFolder path).trans hp)
    refine ⟨s, (runOn_bind_of_ok hguard).trans ?_, hl, rfl⟩
    rw [runOn_onVolume hu, he hp]
    rfl

/-- A folder that is there already is passed over, whatever fails. -/
theorem exists_runOn_addFolder_of_folder {s : Workspace} {errno : Errno} (hl : Lasts plan s.faults)
    (hfolder : s.volume.isFolder path = true) (he : s.volume.makeFolder path = .error errno) :
    ∃ t, (addFolder true path).runOn s = (.ok (), t) ∧ Lasts plan t.faults ∧
      t.volume = s.volume := by
  obtain ⟨t, hmake, hlasts, hvolume⟩ := exists_runOn_makeFolder_error hu hl fun _ => he
  refine ⟨t, ?_, hlasts, hvolume⟩
  unfold addFolder
  rw [runOn_bind_of_ok (runOn_attempt _ s), hmake]
  refine (runOn_bind_of_ok (runOn_get t)).trans ?_
  rw [hvolume, if_pos hfolder, runOn_pure]

theorem exists_runOn_addFolder_error {s : Workspace} {errno : Errno} (hl : Lasts plan s.faults)
    (hfolder : s.volume.isFolder path = false)
    (he : (planned .makeFolder path plan).1 = none → s.volume.makeFolder path = .error errno) :
    ∃ t, (addFolder true path).runOn s =
        (.error (.os (.of ((planned .makeFolder path plan).1.getD errno) path)), t) ∧
      Lasts plan t.faults ∧ t.volume = s.volume := by
  obtain ⟨t, hmake, hlasts, hvolume⟩ := exists_runOn_makeFolder_error hu hl he
  refine ⟨t, ?_, hlasts, hvolume⟩
  unfold addFolder
  rw [runOn_bind_of_ok (runOn_attempt _ s), hmake]
  refine (runOn_bind_of_ok (runOn_get t)).trans ?_
  rw [hvolume, hfolder]
  rfl

theorem runOn_addFolder_of_made {s : Workspace} {w : Volume}
    (hp : (planned .makeFolder path s.faults).1 = none) (hw : s.volume.makeFolder path = .ok w) :
    (addFolder true path).runOn s = (.ok (), { s with volume := w }) := by
  have hmake : (makeFolder true path).runOn s = (.ok (), { s with volume := w }) := by
    refine (runOn_bind_of_ok (runOn_guard_of_none hp)).trans ?_
    rw [runOn_onVolume hu, hw]
  unfold addFolder
  rw [runOn_bind_of_ok (runOn_attempt _ s), hmake, runOn_pure]

end

/-! ### Folders around a folder -/

/-- With its folder there a folder is added to it; otherwise that is made first. -/
theorem runOn_makeFolders_concat (hr : Path.Tidied root) (hn : ∀ n ∈ names, Path.IsName n)
    (hname : Path.IsName name) (fuel : Nat) (s : Workspace) :
    (makeFolders true (fuel + 1) (Path.descend root (names ++ [name]))).runOn s =
      if s.volume.hasEntry (Path.descend root names) then
        (addFolder true (Path.descend root (names ++ [name]))).runOn s
      else
        let made := (makeFolders true fuel (Path.descend root names)).runOn s
        (do
          passTaken made.1
          addFolder true (Path.descend root (names ++ [name]))).runOn made.2 := by
  have hpieces := Path.isPiece_of_isName hn
  have hne : ¬ (Path.descend root names).isEmpty = true := by
    simpa using Path.descend_ne_nil hr.ne_nil hpieces
  have hlast : ¬ name.isEmpty = true := by simpa using hname.isPiece.1
  rw [makeFolders, Volume.parentAndName_descend hr hpieces hname.isPiece]
  dsimp only
  rw [runOn_bind_of_ok (runOn_get s)]
  cases s.volume.hasEntry (Path.descend root names) with
  | true => simp
  | false =>
    simp only [hne, hlast, Bool.false_eq_true, or_self, if_false, if_neg hname.2.2.1]
    rw [runOn_bind_of_ok (runOn_attempt _ s)]

/-! ### How far it goes -/

/-- Making the folders of a way comes to the result, with the folders down to some end. -/
def Comes (plan : List PlannedFault) (v : Volume) (root : Path) (place : Place)
    (names : List Text) (result : Except Failure Unit) (reach : List Text) : Prop :=
  ∀ fuel, names.length ≤ fuel → ∀ s : Workspace, Along plan v root place names s.volume →
    Lasts plan s.faults → ∃ t, (makeFolders true fuel (Path.descend root names)).runOn s =
      (result, t) ∧ Lasts plan t.faults ∧ s.volume.Grown t.volume place reach

section
variable (hr : Path.Tidied root)
include hr

theorem comes_nil (hp : v.get? place = some .folder) : Comes plan v root place [] (.ok ()) [] := by
  intro fuel _ s hs hl
  have hfolder : s.volume.get? place = some .folder := by
    simpa using hs.folders [] (List.prefix_refl _) (by simpa using hp)
  have htaken : s.volume.makeFolder root = .error .taken := by
    rw [Volume.makeFolder, hs.tree.locate_of_leads hs.leads]
  obtain ⟨t, hrun, hlasts, hvolume⟩ := exists_runOn_addFolder_of_folder
    (hs.tree.sound.isUsable_of_leads hs.leads) hl (hs.tree.isFolder_of_leads hs.leads hfolder)
    htaken
  refine ⟨t, ?_, hlasts, by rw [hvolume]; exact hs.tree.grown (by simpa using hfolder)⟩
  rw [Path.descend_nil]
  cases fuel with
  | zero => exact hrun
  | succ fuel =>
    rw [makeFolders]
    dsimp only
    rw [runOn_bind_of_ok (runOn_get s), if_pos (by
      simpa using hs.tree.parent_of_tidied hr hs.leads), hrun]

variable (hn : ∀ n ∈ names, Path.IsName n) (hname : Path.IsName name)
include hn hname

/-- On a way that is not barred there is a folder to add to, if it has to be made or not. -/
theorem exists_runOn_makeFolders_open (hopen : ¬ Barred plan v root place names)
    (hcomes : Comes plan v root place names (.ok ()) names) {fuel : Nat}
    (hfuel : names.length ≤ fuel) {s : Workspace}
    (hs : Along plan v root place (names ++ [name]) s.volume) (hl : Lasts plan s.faults) :
    ∃ t, (makeFolders true (fuel + 1) (Path.descend root (names ++ [name]))).runOn s =
        (addFolder true (Path.descend root (names ++ [name]))).runOn t ∧
      Lasts plan t.faults ∧ s.volume.Grown t.volume place names := by
  have hlead := hs.prefix (List.prefix_append names [name])
  rw [runOn_makeFolders_concat hr hn hname]
  split
  · next hentry =>
    obtain ⟨entry, he⟩ := hs.tree.exists_entry_of_hasEntry hs.leads hn hentry
    refine ⟨s, rfl, hl, hs.tree.grown ?_⟩
    cases entry with
    | folder => exact he
    | link target => exact absurd he hs.tree.not_link
    | file content =>
      have hfile := (hlead.files names (List.prefix_refl _)).1 ⟨content, he⟩
      exact absurd ⟨names, List.prefix_refl _, Or.inl hfile⟩ hopen
  · obtain ⟨t, hrun, hlasts, hgrown⟩ := hcomes fuel hfuel s hlead hl
    exact ⟨t, by rw [hrun]; rfl, hlasts, hgrown⟩

variable (hu : ∀ n ∈ names ++ [name], Path.IsUsable n)
include hu

theorem comes_concat_of_open (hopen : ¬ Barred plan v root place (names ++ [name]))
    (hcomes : Comes plan v root place names (.ok ()) names) :
    Comes plan v root place (names ++ [name]) (.ok ()) (names ++ [name]) := by
  intro fuel hfuel s hs hl
  rw [List.length_append, List.length_singleton] at hfuel
  obtain ⟨fuel, rfl⟩ := Nat.exists_eq_add_of_le' (show 1 ≤ fuel by omega)
  obtain ⟨hbefore, hfile, hpass⟩ : ¬ Barred plan v root place names ∧
      ¬ v.FileAt (place ++ (names ++ [name])) ∧ Passable plan v root place (names ++ [name]) := by
    simpa [barred_concat_iff] using hopen
  obtain ⟨t, hrun, hlasts, hg⟩ := exists_runOn_makeFolders_open hr hn hname hbefore hcomes
    (Nat.le_of_add_le_add_right hfuel) hs hl
  rw [hrun]
  have hpath := Path.isUsable_descend (hs.tree.sound.isUsable_of_leads hs.leads) hu
  have hleads := hg.extends'.leads hs.tree hg.tree hs.leads
  have hsame := hg.get?_beyond name
  have hmake := hg.tree.makeFolder_descend hleads hname hg.folder
  cases he : t.volume.get? (place ++ (names ++ [name])) with
  | none =>
    rw [he] at hmake
    -- The folder is not there yet, so nothing fails that makes it.
    have hquiet :
        (planned .makeFolder (Path.descend root (names ++ [name])) t.faults).1 = none := by
      rw [hlasts.same]
      refine hpass.resolve_left fun hthere => ?_
      have hfolder := hs.folders _ (List.prefix_refl _) hthere
      rw [← hsame, he] at hfolder
      simp at hfolder
    exact ⟨_, runOn_addFolder_of_made hpath hquiet hmake, hlasts,
      hg.put hname (hu _ (List.mem_append_right _ (List.mem_singleton_self _))) he⟩
  | some entry =>
    rw [he] at hmake
    cases entry with
    | link target => exact absurd he hg.tree.not_link
    | file content =>
      have hthere := (hs.files _ (List.prefix_refl _)).1 ⟨content, hsame ▸ he⟩
      exact absurd hthere hfile
    | folder =>
      obtain ⟨u, hadd, hlasts', hvolume⟩ := exists_runOn_addFolder_of_folder hpath hlasts
        (hg.tree.isFolder_of_leads (hg.tree.leads_descend hleads he) he) hmake
      refine ⟨u, hadd, hlasts', ?_⟩
      rw [hvolume]
      exact hg.extend (List.prefix_append _ _) he

/-- Where a way is barred at its end only, the folders before it are made. -/
theorem exists_comes_concat_of_end (hbefore : ¬ Barred plan v root place names)
    (hbar : Barred plan v root place (names ++ [name]))
    (hcomes : Comes plan v root place names (.ok ()) names) :
    ∃ e, Comes plan v root place (names ++ [name]) (.error (.os e)) names := by
  refine ⟨.of ((planned .makeFolder (Path.descend root (names ++ [name])) plan).1.getD .taken)
    (Path.descend root (names ++ [name])), fun fuel hfuel s hs hl => ?_⟩
  rw [List.length_append, List.length_singleton] at hfuel
  obtain ⟨fuel, rfl⟩ := Nat.exists_eq_add_of_le' (show 1 ≤ fuel by omega)
  obtain ⟨t, hrun, hlasts, hg⟩ := exists_runOn_makeFolders_open hr hn hname hbefore hcomes
    (Nat.le_of_add_le_add_right hfuel) hs hl
  rw [hrun]
  have hleads := hg.extends'.leads hs.tree hg.tree hs.leads
  have hsame := hg.get?_beyond name
  have htaken (hquiet : (planned .makeFolder (Path.descend root (names ++ [name])) plan).1 = none) :
      t.volume.makeFolder (Path.descend root (names ++ [name])) = .error .taken := by
    rcases barred_concat_iff.1 hbar with hbar | hfile | hnot
    · exact absurd hbar hbefore
    · obtain ⟨content, hc⟩ := (hs.files _ (List.prefix_refl _)).2 hfile
      rw [hg.tree.makeFolder_descend hleads hname hg.folder, hsame, hc]
    · exact absurd (Or.inr hquiet) hnot
  obtain ⟨u, hadd, hlasts', hvolume⟩ := exists_runOn_addFolder_error
    (Path.isUsable_descend (hs.tree.sound.isUsable_of_leads hs.leads) hu) hlasts
    ((hs.grown hbefore hg).isFolder_eq_false hn hname hbar) htaken
  exact ⟨u, hadd, hlasts', by rw [hvolume]; exact hg⟩

variable (hp : v.get? place = some .folder) {reach : List Text} {e : OsError}
  (hbefore : ¬ Barred plan v root place reach) (hbar : Barred plan v root place names)
include hp hbefore hbar

/-- Below a file no folders are made. -/
theorem exists_comes_concat_of_file (hreach : reach <+: names)
    (hfile : v.FileAt (place ++ names)) :
    ∃ e', Comes plan v root place (names ++ [name]) (.error (.os e')) reach := by
  refine ⟨.of ((planned .makeFolder (Path.descend root (names ++ [name])) plan).1.getD .notFolder)
    (Path.descend root (names ++ [name])), fun fuel hfuel s hs hl => ?_⟩
  rw [List.length_append, List.length_singleton] at hfuel
  obtain ⟨fuel, rfl⟩ := Nat.exists_eq_add_of_le' (show 1 ≤ fuel by omega)
  have hplace := hs.folders [] (List.nil_prefix) (by simpa using hp)
  rw [List.append_nil] at hplace
  have hthere := (hs.files names (List.prefix_append _ _)).2 hfile
  obtain ⟨content, hc⟩ := id hthere
  rw [runOn_makeFolders_concat hr hn hname, if_pos (hs.tree.hasEntry_descend hs.leads hplace hc)]
  obtain ⟨t, hadd, hlasts, hvolume⟩ := exists_runOn_addFolder_error
    (Path.isUsable_descend (hs.tree.sound.isUsable_of_leads hs.leads) hu) hl
    (hs.isFolder_eq_false hn hname (hbar.mono (List.prefix_append _ _)))
    fun _ => hs.tree.makeFolder_blocked hs.leads hn hname.isPiece (List.prefix_refl _) hthere
  refine ⟨t, hadd, hlasts, ?_⟩
  obtain ⟨rest, rfl⟩ := hreach
  rw [← List.append_assoc] at hc
  have hrest : rest ≠ [] := by
    rintro rfl
    rw [List.append_nil] at hbar
    exact hbefore hbar
  rw [hvolume]
  exact hs.tree.grown (hs.tree.folder_of_below hc hrest)

/-- Below a place where no folder comes to be no more are made. -/
theorem exists_comes_concat_of_missing (hfile : ¬ v.FileAt (place ++ names))
    (hcomes : Comes plan v root place names (.error (.os e)) reach) :
    ∃ e', Comes plan v root place (names ++ [name]) (.error (.os e')) reach := by
  obtain ⟨errno, herrno⟩ : ∃ errno, ∀ w, Along plan v root place names w →
      w.makeFolder (Path.descend root (names ++ [name])) = .error errno := by
    by_cases hblock : ∃ lead, lead <+: names ∧ v.FileAt (place ++ lead)
    · obtain ⟨lead, hlead, hf⟩ := hblock
      exact ⟨_, fun w hw => hw.tree.makeFolder_blocked hw.leads hn hname.isPiece hlead
        ((hw.files lead hlead).2 hf)⟩
    · refine ⟨_, fun w hw => hw.tree.makeFolder_missing hw.leads hn hname.isPiece ?_
        (fun lead hlead hf => hblock ⟨lead, hlead, (hw.files lead hlead).1 hf⟩)
        (hw.eq_none hbar hfile)⟩
      simpa using hw.folders [] List.nil_prefix (by simpa using hp)
  -- An error that tells of a folder that is there already is passed over, and the next one told.
  refine ⟨if e.code = Errno.taken.code then
    .of ((planned .makeFolder (Path.descend root (names ++ [name])) plan).1.getD errno)
      (Path.descend root (names ++ [name])) else e, fun fuel hfuel s hs hl => ?_⟩
  rw [List.length_append, List.length_singleton] at hfuel
  obtain ⟨fuel, rfl⟩ := Nat.exists_eq_add_of_le' (show 1 ≤ fuel by omega)
  have hlead := hs.prefix (List.prefix_append names [name])
  have hnone := hlead.eq_none hbar hfile
  have hentry : ¬ s.volume.hasEntry (Path.descend root names) = true := fun hthere => by
    obtain ⟨entry, he⟩ := hs.tree.exists_entry_of_hasEntry hs.leads hn hthere
    simp [hnone] at he
  obtain ⟨t, hrun, hlasts, hg⟩ :=
    hcomes fuel (Nat.le_of_add_le_add_right hfuel) s hlead hl
  rw [runOn_makeFolders_concat hr hn hname, if_neg hentry, hrun]
  dsimp only [passTaken]
  split
  · have ht := hs.grown hbefore hg
    obtain ⟨u, hadd, hlasts', hvolume⟩ := exists_runOn_addFolder_error
      (Path.isUsable_descend (hs.tree.sound.isUsable_of_leads hs.leads) hu) hlasts
      (ht.isFolder_eq_false hn hname (hbar.mono (List.prefix_append _ _)))
      fun _ => herrno _ (hlead.grown hbefore hg)
    exact ⟨u, hadd, hlasts', by rw [hvolume]; exact hg⟩
  · exact ⟨t, rfl, hlasts, hg⟩

end

/-- How far folders are made and how that ends is the same on all volumes that have the files of the
way, and no folders on it but those that can be made. -/
theorem exists_makeFolders (plan : List PlannedFault) (hr : Path.Tidied root)
    (hp : v.get? place = some .folder)
    (hn : ∀ n ∈ names, Path.IsName n) (hu : ∀ n ∈ names, Path.IsUsable n) :
    ∃ result reach, Comes plan v root place names result reach ∧ reach <+: names ∧
      ¬ Barred plan v root place reach ∧
      (result = .ok () ∧ reach = names ∨
        (∃ e, result = .error (.os e)) ∧ Barred plan v root place names) := by
  induction names using List.reverseRecOn with
  | nil =>
    exact ⟨.ok (), [], comes_nil hr hp, List.prefix_refl _, not_barred_nil hp, Or.inl ⟨rfl, rfl⟩⟩
  | append_singleton names name ih =>
    obtain ⟨hnames, hname⟩ := List.forall_mem_append.1 hn
    rw [List.forall_mem_singleton] at hname
    obtain ⟨result, reach, hcomes, hreach, hbefore, hend⟩ :=
      ih hnames fun n hm => hu n (List.mem_append_left _ hm)
    have hlonger := hreach.trans (List.prefix_append names [name])
    rcases hend with ⟨rfl, rfl⟩ | ⟨⟨e, rfl⟩, hbar⟩
    · by_cases hbar : Barred plan v root place (reach ++ [name])
      · obtain ⟨e, hcomes'⟩ := exists_comes_concat_of_end hr hnames hname hu hbefore hbar hcomes
        exact ⟨_, _, hcomes', hlonger, hbefore, Or.inr ⟨⟨e, rfl⟩, hbar⟩⟩
      · exact ⟨_, _, comes_concat_of_open hr hnames hname hu hbar hcomes, List.prefix_refl _, hbar,
          Or.inl ⟨rfl, rfl⟩⟩
    · obtain ⟨e', hcomes'⟩ : ∃ e', Comes plan v root place (names ++ [name]) (.error (.os e'))
          reach := by
        by_cases hfile : v.FileAt (place ++ names)
        · exact exists_comes_concat_of_file hr hnames hname hu hp hbefore hbar hreach hfile
        · exact exists_comes_concat_of_missing hr hnames hname hu hp hbefore hbar hfile hcomes
      exact ⟨_, _, hcomes', hlonger, hbefore,
        Or.inr ⟨⟨e', rfl⟩, hbar.mono (List.prefix_append _ _)⟩⟩

/-! ### Folders around a file -/

section
variable (hr : Path.Tidied root) (hp : v.get? place = some .folder)
  (hn : ∀ n ∈ names, Path.IsName n) (hu : ∀ n ∈ names, Path.IsUsable n) (hname : Path.IsPiece name)
include hr hp hn hu hname

/-- The same for the folders around a file, whose making may also fail as a whole. -/
theorem exists_ensureParent (plan : List PlannedFault) :
    ∃ result reach, reach <+: names ∧ ¬ Barred plan v root place reach ∧
      (result = .ok () ∧ reach = names ∨ (∃ e, result = .error (.os e)) ∧
        ((planned .makeParent (Path.descend root (names ++ [name])) plan).1 ≠ none ∨
          Barred plan v root place names)) ∧
      ∀ s : Workspace, Along plan v root place names s.volume → Lasts plan s.faults →
        ∃ t, (ensureParent (Path.descend root (names ++ [name]))).runOn s = (result, t) ∧
          Lasts plan t.faults ∧ s.volume.Grown t.volume place reach := by
  have hpieces := Path.isPiece_of_isName hn
  have hfolder := Path.folder_descend hr hpieces hname
  cases hplan : (planned .makeParent (Path.descend root (names ++ [name])) plan).1 with
  | some errno =>
    refine ⟨.error (.os (.of errno (Path.descend root (names ++ [name])))), [], List.nil_prefix,
      not_barred_nil hp, Or.inr ⟨⟨_, rfl⟩, Or.inl (by simp)⟩, fun s hs hl => ?_⟩
    have hguard : (guard .makeParent (Path.descend root (names ++ [name]))).runOn s =
        (.error (.os (.of errno (Path.descend root (names ++ [name])))),
          { s with faults := (planned .makeParent (Path.descend root (names ++ [name]))
            s.faults).2 }) := by rw [runOn_guard, hl.same, hplan]
    exact ⟨_, runOn_bind_of_error hguard, hl.planned _ _,
      hs.tree.grown (hs.folders [] List.nil_prefix (by simpa using hp))⟩
  | none =>
    obtain ⟨result, reach, hcomes, hreach, hbefore, hend⟩ :=
      exists_makeFolders plan hr hp hn hu
    refine ⟨result, reach, hreach, hbefore, hend.imp_right fun h => ⟨h.1, Or.inr h.2⟩,
      fun s hs hl => ?_⟩
    have hlength := Path.length_le_descend root hpieces
    have hne : ¬ (Path.descend root names).isEmpty = true := by
      simpa using Path.descend_ne_nil hr.ne_nil hpieces
    unfold ensureParent makeParent ensureFolder
    rw [runOn_bind_of_ok (runOn_guard_of_none ((hl.same _ _).trans hplan)), hfolder, if_neg hne]
    exact hcomes _ (by omega) s hs hl

end

theorem along_self (h : v.Tree) (hl : v.Leads root place) (plan : List PlannedFault)
    (names : List Text) : Along plan v root place names v where
  tree := h
  leads := hl
  files _ _ := Iff.rfl
  folders _ _ hf := hf
  passable _ _ hf := Or.inl hf

/-- Without faults and without a file on the way all folders are made. -/
theorem exists_runOn_ensureParent {s : Workspace} (h : s.volume.Tree) (hs : s.faults = [])
    (hr : Path.Tidied root) (hl : s.volume.Leads root place)
    (hp : s.volume.get? place = some .folder) (hn : ∀ n ∈ names, Path.IsName n)
    (hu : ∀ n ∈ names, Path.IsUsable n) (hname : Path.IsPiece name)
    (hopen : ∀ lead, lead <+: names → ¬ s.volume.FileAt (place ++ lead)) :
    ∃ t, (ensureParent (Path.descend root (names ++ [name]))).runOn s = (.ok (), t) ∧
      t.faults = [] ∧ s.volume.Grown t.volume place names := by
  obtain ⟨result, reach, _, _, hend, hacts⟩ := exists_ensureParent hr hp hn hu hname []
  have hlasts : Lasts [] s.faults := by
    rw [hs]
    exact Lasts.refl (by simp)
  obtain ⟨t, hrun, hlasts', hg⟩ := hacts s (along_self h hl [] names) hlasts
  rcases hend with ⟨rfl, rfl⟩ | ⟨_, hplan | hbar⟩
  · exact ⟨t, hrun, hlasts'.eq_nil, hg⟩
  · exact absurd rfl hplan
  · obtain ⟨lead, hlead, hf⟩ := barred_nil_plan_iff.1 hbar
    exact absurd hf (hopen lead hlead)

end Inlay.Action
