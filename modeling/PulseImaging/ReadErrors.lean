import PulseImaging.ImageStream

/-! The backup under read errors. `compress_volume` never sets the position of
the source device absolutely, so a seek or read that does not complete shifts
every later read. -/

namespace PulseImaging

def cutSectors (l : List Byte) : List (List Byte) :=
  (List.range (l.length / 512)).map (fun k => (l.drop (512 * k)).take 512)

/-- The data sectors of an image in the order of its set bits. -/
def storedSectors (files : List (List DeflateCall)) : List (List Byte) :=
  files.flatMap (fun calls => cutSectors (streamInput calls.tail))

/-- Every sector whose read returned 512 bytes was read at the offset of its own
bit and is the sector stored for that bit, whatever the volume contains. -/
def BackupAligned (io : Nat → Outcome) (options : Option (List Byte)) (info : List Byte)
    (p : PARAMS) : Prop :=
  ∀ c : Content, List.Forall₂
    (fun x g => x.1.outcome = .full → x.1.pos = 512 * g ∧ x.2 = slice c (512 * g) 512)
    (((compressVolume io options info p (openDevice c)).dev.log.filter Call.transfer).zip
      (storedSectors (compressVolume io options info p (openDevice c)).files))
    (setBits p.bitmap)

/-- Before every read, complete or not, the offset is that of its bit. -/
def OffsetsAligned (io : Nat → Outcome) (options : Option (List Byte)) (info : List Byte)
    (p : PARAMS) : Prop :=
  ∀ c : Content, List.Forall₂ (fun call g => call.pos = 512 * g)
    ((compressVolume io options info p (openDevice c)).dev.log.filter Call.transfer) (setBits p.bitmap)

theorem cutSectors_flatten {secs : List (List Byte)} (h : ∀ s ∈ secs, s.length = 512) :
    cutSectors secs.flatten = secs := by
  induction secs with
  | nil => rfl
  | cons s secs ih =>
    have hs := h s (by simp)
    have hi := ih (fun t ht => h t (by simp [ht]))
    have hlen : (s ++ secs.flatten).length / 512 = secs.flatten.length / 512 + 1 := by
      rw [List.length_append, hs]
      omega
    rw [List.flatten_cons, cutSectors, hlen, List.range_succ_eq_map, List.map_cons, List.map_map]
    congr 1
    · simp [← hs]
    · rw [cutSectors] at hi
      conv_rhs => rw [← hi]
      apply List.map_congr_left
      intro k _
      simp only [Function.comp_apply]
      rw [show 512 * (k + 1) = s.length + 512 * k by omega, List.drop_length_add_append]

theorem storedSectors_eq {files : List (List DeflateCall)} {parts : List Part}
    (h : List.Forall₂ FileData files parts) : storedSectors files = parts.flatMap Part.secs := by
  induction h with
  | nil => rfl
  | @cons calls part files parts hdata _ ih =>
    obtain ⟨tail, hc, ht⟩ := hdata.header_first
    rw [storedSectors, List.flatMap_cons, List.flatMap_cons, hc, List.tail_cons, ht,
      cutSectors_flatten hdata.secs_length, ← ih]
    rfl

theorem compressVolume_log (io : Nat → Outcome) (options : Option (List Byte)) (info : List Byte)
    (p : PARAMS) (c : Content) : (compressVolume io options info p (openDevice c)).dev.log =
      trace io (openDevice c) (readRequests (slicesOf p.bitmap)) := by
  rw [compressVolume_dev, run_log]
  rfl

theorem offsetsAligned_iff (io : Nat → Outcome) (options : Option (List Byte)) (info : List Byte)
    (p : PARAMS) : OffsetsAligned io options info p ↔
      ∀ i j, i < j → (readRequests (slicesOf p.bitmap))[j]? = some (.read 512) → io i = .full := by
  have h (c : Content) := read_positions_iff io (fun _ => True) p c
  simp only [true_implies] at h
  simp only [OffsetsAligned, compressVolume_log, h, forall_const]

theorem forall₂_zip {α β γ : Type} {P : α × β → γ → Prop} {R : α → γ → Prop} {U : α → β → Prop}
    {a : List α} {b : List β} {g : List γ} (hu : List.Forall₂ U a b) (hr : List.Forall₂ R a g)
    (h : ∀ x y z, U x y → R x z → P (x, y) z) : List.Forall₂ P (a.zip b) g := by
  induction hu generalizing g with
  | nil => cases hr; exact List.Forall₂.nil
  | @cons x y a b hxy _ ih =>
    cases hr with
    | @cons _ z _ g hxz hrest => exact List.Forall₂.cons (h x y z hxy hxz) (ih hrest)

theorem forall₂_of_zip {α β γ : Type} {P : α × β → γ → Prop} {R : α → γ → Prop}
    {a : List α} {b : List β} {g : List γ} (hlen : a.length = b.length)
    (hp : List.Forall₂ P (a.zip b) g) (h : ∀ x y z, P (x, y) z → R x z) : List.Forall₂ R a g := by
  have hz := List.forall₂_map_left_iff.mpr (hp.imp (fun x z hx => h x.1 x.2 z hx) :
    List.Forall₂ (fun x z => R x.1 z) (a.zip b) g)
  rwa [List.map_fst_zip hlen.le] at hz

theorem compressVolume_stored (io : Nat → Outcome) (options : Option (List Byte)) (info : List Byte)
    (p : PARAMS) (c : Content) :
    List.Forall₂ (fun call s => call.outcome = .full → s = slice c call.pos 512)
      ((trace io (openDevice c) (readRequests (slicesOf p.bitmap))).filter Call.transfer)
      (storedSectors (compressVolume io options info p (openDevice c)).files) := by
  obtain ⟨parts, hfiles, -, -, hreads⟩ := compressLoop_parts io options
    (blockCount p.bitmap.length) 0 (firststring p.nb_sect (blockCount p.bitmap.length) info) p.bitmap
    (openDevice c) List.length_replicate
  have hstored : storedSectors (compressVolume io options info p (openDevice c)).files =
      parts.flatMap Part.secs := storedSectors_eq hfiles
  rw [hstored]
  exact hreads

theorem backupAligned_iff (io : Nat → Outcome) (options : Option (List Byte)) (info : List Byte)
    (p : PARAMS) : BackupAligned io options info p ↔
      ∀ i j, i < j → (readRequests (slicesOf p.bitmap))[j]? = some (.read 512) → io j = .full →
        io i = .full := by
  have hiff (c : Content) := read_positions_iff io (fun o => o = .full) p c
  constructor
  · intro h
    have h0 := h (fun _ => 0)
    rw [compressVolume_log] at h0
    rw [← hiff (fun _ => 0)]
    exact forall₂_of_zip (compressVolume_stored io options info p _).length_eq h0
      (fun x y z hx hf => (hx hf).1)
  · intro h c
    rw [compressVolume_log]
    refine forall₂_zip (compressVolume_stored io options info p c) ((hiff c).mpr h) ?_
    intro x y z hy hx hf
    exact ⟨hx hf, by rw [hy hf, hx hf]⟩

/-- The backup stays aligned exactly when no seek or read is incomplete before a
complete read (for the stored sectors), or before any read (for the offsets). -/
theorem backup_alignment (io : Nat → Outcome) (options : Option (List Byte)) (info : List Byte)
    (p : PARAMS) :
    (BackupAligned io options info p ↔ ∀ i j, i < j →
      (readRequests (slicesOf p.bitmap))[j]? = some (.read 512) → io j = .full → io i = .full) ∧
    (OffsetsAligned io options info p ↔ ∀ i j, i < j →
      (readRequests (slicesOf p.bitmap))[j]? = some (.read 512) → io i = .full) :=
  ⟨backupAligned_iff io options info p, offsetsAligned_iff io options info p⟩

/-- Two allocated sectors: the read of the first fails, that of the second returns
512 bytes, from offset 0. -/
theorem backup_misaligned_after_failed_read :
    ¬ BackupAligned (fun n => if n = 0 then .fail else .full) none []
      ⟨[0x03], 2, by decide, by decide⟩ := by
  rw [backupAligned_iff]
  intro h
  exact absurd (h 0 1 (by decide) (by decide) rfl) (by decide)

end PulseImaging
