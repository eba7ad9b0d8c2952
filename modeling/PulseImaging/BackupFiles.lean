import PulseImaging.FiledRanges

/-! The files that a backup leaves: the copies of sectors of each disk in one file, one record behind
the other, and the files of each image under their numbers. -/

namespace PulseImaging

variable {δ : Type*} {site : Site δ} {source : Store δ} {revosave : List Byte} {es : List SaveEvent}

/-! ### Names -/

theorem tabsPath_last (revosave : List Byte) (num : Int) : (tabsPath revosave num).getLast? = some 83 := by
  rw [tabsPath, ← List.append_assoc, List.getLast?_append]
  rfl

theorem imageName_last ( nameprefix : List Byte) (i : Nat) :
    ∃ b, (imageName nameprefix i).getLast? = some b ∧ isDigit b = true := by
  have hlast := List.getLast?_eq_some_getLast (decimal_ne_nil i)
  refine ⟨_, ?_, decimal_isDigit i _ (List.getLast_mem (decimal_ne_nil i))⟩
  rw [imageName, pad3, ← List.append_assoc, List.getLast?_append, hlast]
  rfl

theorem tabsPath_ne_imageName (num : Int) ( nameprefix : List Byte) (i : Nat) :
    tabsPath revosave num ≠ imageName nameprefix i := by
  intro h
  obtain ⟨b, hb, hdigit⟩ := imageName_last nameprefix i
  rw [← h, tabsPath_last] at hb
  rw [← Option.some.inj hb] at hdigit
  exact absurd hdigit (by decide)

theorem imageName_injective ( nameprefix : List Byte) : Function.Injective (imageName nameprefix) :=
  fun _ _ h => pad3_injective (List.append_cancel_left h)

/-! ### Image files -/

theorem writeFiles_other {name path : List Byte} {i : Nat} {files : List (List Byte)} (dir : ImageDir)
    (h : ∀ k < files.length, imageName name (i + k) ≠ path) : writeFiles name i files dir path = dir path := by
  induction files generalizing i dir with
  | nil => rfl
  | cons file files ih =>
    have hrest : ∀ k < files.length, imageName name (i + 1 + k) ≠ path := by
      intro k hk
      rw [Nat.add_assoc, Nat.add_comm 1 k]
      exact h (k + 1) (Nat.succ_lt_succ hk)
    have hfirst : path ≠ imageName name i := (h 0 (Nat.succ_pos _)).symm
    rw [writeFiles, ih _ hrest, Function.update_of_ne hfirst]

theorem writeFiles_at {name : List Byte} {i k : Nat} {files : List (List Byte)} (dir : ImageDir)
    (hk : k < files.length) : writeFiles name i files dir (imageName name (i + k)) = files[k]? := by
  induction files generalizing i k dir with
  | nil => exact absurd hk (Nat.not_lt_zero k)
  | cons file files ih =>
    rw [writeFiles]
    cases k with
    | zero =>
      have hother : ∀ j < files.length, imageName name (i + 1 + j) ≠ imageName name (i + 0) := by
        intro j _ heq
        have := imageName_injective name heq
        omega
      rw [writeFiles_other _ hother, Nat.add_zero, Function.update_self]
      rfl
    | succ k =>
      rw [Nat.add_comm k 1, ← Nat.add_assoc, ih _ (Nat.lt_of_succ_lt_succ hk), Nat.add_comm 1 k]
      rfl

/-! ### A whole backup -/

/-- No loop of `save_raw` goes around. -/
def RangesEnd (es : List SaveEvent) : Prop :=
  ∀ start stop fmajor num, .saveRaw start stop fmajor num ∈ es → start ≤ stop ∧ stop < 2 ^ 32 - 1

/-- What a call leaves in the file of a disk. -/
def Site.recordsAt (site : Site δ) (source : Store δ) (revosave path : List Byte) : SaveEvent → List Byte
  | .saveRaw start stop fmajor num =>
    if tabsPath revosave num = path then
      (List.range' start (stop + 1 - start)).flatMap (rawRecord ((site.views fmajor).read source))
    else []
  | _ => []

/-- What is in the directory behind some calls. -/
structure BackupDir (site : Site δ) (source : Store δ) (revosave : List Byte) (es : List SaveEvent)
    (dir0 dir : ImageDir) : Prop where
  records : ∀ num, (dir (tabsPath revosave num)).getD [] = (dir0 (tabsPath revosave num)).getD [] ++
    es.flatMap (site.recordsAt source revosave (tabsPath revosave num))
  present : ∀ num, (dir0 (tabsPath revosave num)).isSome = true ∨
    (∃ start stop fmajor, .saveRaw start stop fmajor num ∈ es) → (dir (tabsPath revosave num)).isSome = true
  images : ∀ t v i f, (imageFiles site.codec (site.image source t v))[i]? = some f →
    (∀ t' w j, .image t' w ∈ es → j < (imageFiles site.codec (site.image source t' w)).length →
      imageName (destfile revosave w) j = imageName (destfile revosave v) i → t' = t ∧ w = v) →
    dir0 (imageName (destfile revosave v) i) = some f ∨ .image t v ∈ es →
    dir (imageName (destfile revosave v) i) = some f

theorem BackupDir.nil (dir : ImageDir) : BackupDir site source revosave [] dir dir where
  records _ := (List.append_nil _).symm
  present _ h := h.resolve_right fun ⟨_, _, _, hmem⟩ => absurd hmem List.not_mem_nil
  images _ _ _ _ _ _ h := h.resolve_right List.not_mem_nil

/-- A call that writes no file of its own. -/
theorem BackupDir.skip {e : SaveEvent} {dir0 dir : ImageDir} (h : BackupDir site source revosave es dir0 dir)
    (hraw : e.isRaw = false) (himage : ∀ t v, e ≠ .image t v) :
    BackupDir site source revosave (e :: es) dir0 dir where
  records num := by
    have hnone : site.recordsAt source revosave (tabsPath revosave num) e = [] := by
      cases e <;> first | rfl | cases hraw
    rw [List.flatMap_cons, hnone]
    exact h.records num
  present num hp := by
    refine h.present num (hp.imp_right ?_)
    rintro ⟨a, b, fmajor, hmem⟩
    rcases List.mem_cons.mp hmem with rfl | hmem
    · cases hraw
    · exact ⟨a, b, fmajor, hmem⟩
  images t v i f hf hown hp := by
    refine h.images t v i f hf (fun t' w j hmem => hown t' w j (List.mem_cons_of_mem _ hmem)) (hp.imp_right ?_)
    intro hmem
    exact (List.mem_cons.mp hmem).resolve_left fun heq => himage t v heq.symm

theorem BackupDir.raw {start stop : Nat} {fmajor : List Byte} {num : Int} {dir0 dir : ImageDir}
    (h : BackupDir site source revosave es (Function.update dir0 (tabsPath revosave num)
      (some ((dir0 (tabsPath revosave num)).getD [] ++ (List.range' start (stop + 1 - start)).flatMap
        (rawRecord ((site.views fmajor).read source))))) dir) :
    BackupDir site source revosave (.saveRaw start stop fmajor num :: es) dir0 dir where
  records num' := by
    rw [h.records num', List.flatMap_cons, Site.recordsAt]
    by_cases heq : tabsPath revosave num = tabsPath revosave num'
    · rw [if_pos heq, ← heq, Function.update_self, Option.getD_some, List.append_assoc]
    · rw [if_neg heq, Function.update_of_ne (Ne.symm heq), List.nil_append]
  present num' hp := by
    by_cases heq : tabsPath revosave num' = tabsPath revosave num
    · refine h.present num' (.inl ?_)
      rw [heq, Function.update_self]
      rfl
    · refine h.present num' ?_
      rw [Function.update_of_ne heq]
      refine hp.imp_right ?_
      rintro ⟨a, b, fmajor', hmem⟩
      rcases List.mem_cons.mp hmem with hnew | hmem
      · cases hnew
        exact absurd rfl heq
      · exact ⟨a, b, fmajor', hmem⟩
  images t v i f hf hown hp := by
    refine h.images t v i f hf (fun t' w j hmem => hown t' w j (List.mem_cons_of_mem _ hmem)) ?_
    rw [Function.update_of_ne (tabsPath_ne_imageName num _ i).symm]
    refine hp.imp_right fun hmem => ?_
    exact (List.mem_cons.mp hmem).resolve_left fun heq => nomatch heq

theorem BackupDir.image {t : Imager} {v : Volume} {dir0 dir : ImageDir}
    (h : BackupDir site source revosave es
      (writeFiles (destfile revosave v) 0 (imageFiles site.codec (site.image source t v)) dir0) dir) :
    BackupDir site source revosave (.image t v :: es) dir0 dir := by
  have htabs : ∀ num, writeFiles (destfile revosave v) 0 (imageFiles site.codec (site.image source t v)) dir0
      (tabsPath revosave num) = dir0 (tabsPath revosave num) := fun num =>
    writeFiles_other dir0 fun k _ heq => tabsPath_ne_imageName num _ _ heq.symm
  refine ⟨fun num => ?_, fun num hp => ?_, fun t' w i f hf hown hp => ?_⟩
  · rw [h.records num, htabs]
    rfl
  · refine h.present num ?_
    rw [htabs]
    refine hp.imp_right ?_
    rintro ⟨a, b, fmajor, hmem⟩
    exact ⟨a, b, fmajor, (List.mem_cons.mp hmem).resolve_left fun heq => nomatch heq⟩
  · refine h.images t' w i f hf (fun t'' u j hmem => hown t'' u j (List.mem_cons_of_mem _ hmem)) ?_
    by_cases hwrites : ∃ k < (imageFiles site.codec (site.image source t v)).length,
        imageName (destfile revosave v) k = imageName (destfile revosave w) i
    · obtain ⟨k, hk, heq⟩ := hwrites
      obtain ⟨rfl, rfl⟩ := hown t v k List.mem_cons_self hk heq
      obtain rfl := imageName_injective _ heq
      have hat : writeFiles _ 0 _ dir0 (imageName (destfile revosave v) (0 + k)) = _ := writeFiles_at dir0 hk
      rw [Nat.zero_add] at hat
      exact .inl (hat.trans hf)
    · rw [writeFiles_other dir0 fun k hk heq => hwrites ⟨k, hk, by rwa [Nat.zero_add] at heq⟩]
      refine hp.imp_right fun hmem => (List.mem_cons.mp hmem).resolve_left fun heq => ?_
      cases heq
      exact hwrites ⟨i, (List.getElem?_eq_some_iff.mp hf).1, rfl⟩

theorem backup_dir (site : Site δ) (source : Store δ) (revosave : List Byte) (hranges : RangesEnd es)
    (dir0 : ImageDir) : ∃ dir, es.foldlM (site.saveEvent source revosave) dir0 = some dir ∧
      BackupDir site source revosave es dir0 dir := by
  induction es generalizing dir0 with
  | nil => exact ⟨dir0, rfl, .nil dir0⟩
  | cons e es ih =>
    have hrest : RangesEnd es := fun a b fmajor num hmem => hranges a b fmajor num (List.mem_cons_of_mem e hmem)
    rw [List.foldlM_cons]
    cases e with
    | saveRaw start stop fmajor num =>
      obtain ⟨hle, hlt⟩ := hranges start stop fmajor num List.mem_cons_self
      have hsave := saveRawLoop_eq ((site.views fmajor).read source) ((dir0 (tabsPath revosave num)).getD []) hlt
        (show start ≤ stop + 1 by omega) (show stop + 1 < start + (2 ^ 32 + 1) by omega)
      rw [Site.saveEvent, saveRaw, hsave]
      obtain ⟨dir, hrun, hdir⟩ := ih hrest _
      exact ⟨dir, hrun, hdir.raw⟩
    | image t v =>
      obtain ⟨dir, hrun, hdir⟩ := ih hrest _
      exact ⟨dir, hrun, hdir.image⟩
    | disk num part size =>
      obtain ⟨dir, hrun, hdir⟩ := ih hrest dir0
      exact ⟨dir, hrun, hdir.skip rfl (by simp)⟩
    | partcopy v =>
      obtain ⟨dir, hrun, hdir⟩ := ih hrest dir0
      exact ⟨dir, hrun, hdir.skip rfl (by simp)⟩
    | unsupported v =>
      obtain ⟨dir, hrun, hdir⟩ := ih hrest dir0
      exact ⟨dir, hrun, hdir.skip rfl (by simp)⟩

end PulseImaging
