import PulseImaging.RoundTrip

/-! The restore under write errors. After the first seek the target device is moved
by relative seeks and by its writes only, so an incomplete call shifts every later
write. -/

namespace PulseImaging

/-- The sectors of a bitmap part that starts at global bit `base`. -/
def sliceItems (c : Content) (base : Nat) (s : List Byte) : List (Nat × List Byte) :=
  (setBits s).map (fun i => (i, slice c (512 * (base + i)) 512))

/-- The calls `restore` makes for the files of a saved volume, from bit `base` on. -/
def fileRequests (c : Content) (base : Nat) : List (List Byte) → List Req
  | [] => []
  | s :: ss => (.tell :: fileVisit s.length (writes (sliceItems c base s))) ++
      fileRequests c (base + 8 * s.length) ss

def imageRequests (c : Content) (bitmap : List Byte) (sect : Nat) : List Req :=
  .seekTo (512 * sect) :: fileRequests c 0 (slicesOf bitmap)

/-- The writes of a restore store the sectors of the set bits in turn, and each write
that succeeds is made at the place of its bit. -/
def RestoreAligned (C : Codec) (io : Nat → Outcome) (fuel : Nat) (options : Option (List Byte))
    (info : List Byte) (p : PARAMS) (c : Content) (sect : Nat) (mem : Memory) (target : Content) : Prop :=
  ∃ st, restore C.inflater io fuel
      (fetch (imageFiles C (compressVolume allFull options info p (openDevice c)))) sect mem
      (openDevice target) = some st ∧
    List.Forall₂ (fun call x => call.req = .write x.2 ∧
        (call.outcome = .full → call.pos = 512 * (sect + x.1)))
      (st.cp.dev.log.filter Call.transfer) (savedSectors c p.bitmap)

theorem savedSectors_append (c : Content) (base : Nat) (s rest : List Byte) :
    (setBits (s ++ rest)).map (fun g => (base + g, slice c (512 * (base + g)) 512)) =
      (sliceItems c base s).map (fun x => (base + x.1, x.2)) ++
        (setBits rest).map (fun g => (base + 8 * s.length + g,
          slice c (512 * (base + 8 * s.length + g)) 512)) := by
  have htail : ((setBits rest).map (· + 8 * s.length)).map
        (fun g => (base + g, slice c (512 * (base + g)) 512)) =
      (setBits rest).map (fun g => (base + 8 * s.length + g,
      slice c (512 * (base + 8 * s.length + g)) 512)) := by
    rw [List.map_map]
    apply List.map_congr_left
    intro g _
    rw [Function.comp_apply, show base + (g + 8 * s.length) = base + 8 * s.length + g by omega]
  rw [setBits_append, List.map_append, htail, sliceItems, List.map_map, Function.comp_def]

theorem restoreRequests_eq {c : Content} {parts : List Part} (hparts : ∀ p ∈ parts, p.Sectors)
    {base : Nat}
    (h : globalItems base parts = (setBits (parts.map Part.slice).flatten).map
      (fun g => (base + g, slice c (512 * (base + g)) 512))) :
    restoreRequests parts = fileRequests c base (parts.map Part.slice) := by
  induction parts generalizing base with
  | nil => rfl
  | cons p ps ih =>
    rw [globalItems, List.map_cons, List.flatten_cons, savedSectors_append] at h
    have hlen : p.items.length = (sliceItems c base p.slice).length := by
      rw [Part.items, List.length_zip, (hparts p (by simp)).secs_count, sliceItems, List.length_map,
        Nat.min_self]
    obtain ⟨hhead, htail⟩ := List.append_inj h (by simpa using hlen)
    have hitems : p.items = sliceItems c base p.slice := by
      have hinj : Function.Injective (fun x : Nat × List Byte => (base + x.1, x.2)) := by
        intro x y hxy
        simp only [Prod.mk.injEq] at hxy
        exact Prod.ext (by omega) hxy.2
      exact List.map_injective_iff.mpr hinj hhead
    rw [show restoreRequests (p :: ps) = (.tell :: fileVisit p.slice.length (writes p.items)) ++
      restoreRequests ps from rfl, ih (fun q hq => hparts q (by simp [hq])) htail, hitems]
    rfl

/-- The device after a restore, for every sequence of outcomes. -/
theorem restore_requests (io : Nat → Outcome) {C : Codec} (hC : C.Correct)
    {options : Option (List Byte)} {info : List Byte} (hinfo : info ∈ imagerInfos)
    {p : PARAMS} (hread : HeadersRead options info p) (c : Content) (sect : Nat) (mem : Memory)
    (dev : Device) {fuel : Nat}
    (hfuel : imageFuel C (compressVolume allFull options info p (openDevice c)) ≤ fuel) :
    ∃ st, restore C.inflater io fuel
        (fetch (imageFiles C (compressVolume allFull options info p (openDevice c)))) sect mem dev =
          some st ∧
      st.cp.dev = dev.run io (imageRequests c p.bitmap sect) := by
  obtain ⟨parts, hparts, hitems⟩ := compressVolume_saved hinfo hread c
  obtain ⟨st, hst, hdev, -⟩ := restore_image io hC hparts sect mem dev hfuel
  refine ⟨st, hst, ?_⟩
  rw [hdev, restoreRequests_eq (c := c) hparts.sectors, hparts.slices_eq]
  · rfl
  · rw [hitems, hparts.slices_eq, slicesOf_flatten]
    simp [savedSectors]

theorem sliceItems_ascends (c : Content) (base : Nat) (s : List Byte) :
    Ascends 0 ((writes (sliceItems c base s)).map Prod.fst) := by
  rw [writes_fst, sliceItems, List.map_map]
  simpa [Function.comp_def] using setBits_ascends s

theorem writes_transfer {items : List (Nat × List Byte)} (h : ∀ x ∈ items, x.2.length = 512) :
    ∀ x ∈ writes items, x.2.transfer = true := by
  intro x hx
  obtain ⟨y, hy, rfl⟩ := List.mem_map.mp hx
  simp [Req.transfer, h y hy]

theorem sliceItems_lt {c : Content} {base : Nat} {s : List Byte} :
    ∀ x ∈ writes (sliceItems c base s), x.1 < 8 * s.length := by
  intro x hx
  obtain ⟨y, hy, rfl⟩ := List.mem_map.mp hx
  obtain ⟨i, hi, rfl⟩ := List.mem_map.mp hy
  exact setBits_lt hi

theorem sliceItems_length (c : Content) (base : Nat) (s : List Byte) :
    ∀ x ∈ sliceItems c base s, x.2.length = 512 := by
  intro x hx
  obtain ⟨i, _, rfl⟩ := List.mem_map.mp hx
  simp

/-- Apart from the queries of the position every call has to move the device. -/
theorem fileRequests_moves (c : Content) (base : Nat) (slices : List (List Byte)) :
    ∀ r ∈ fileRequests c base slices, r.relative = true ∧ (0 < r.advance ↔ r ≠ .tell) := by
  induction slices generalizing base with
  | nil => simp [fileRequests]
  | cons s ss ih =>
    have ht := writes_transfer (sliceItems_length c base s)
    have hend : visitEnd 0 (writes (sliceItems c base s)) ≤ 8 * s.length :=
      visitEnd_le (Nat.zero_le _) sliceItems_lt
    have hpos {r : Req} (hr : 0 < r.advance) : 0 < r.advance ↔ r ≠ .tell :=
      ⟨fun _ he => by rw [he] at hr; simp [Req.advance] at hr, fun _ => hr⟩
    intro r hr
    simp only [fileRequests, fileVisit, List.cons_append, List.mem_cons, List.mem_append] at hr
    rcases hr with rfl | (hr | hr) | hr
    · exact ⟨rfl, by simp [Req.advance]⟩
    · exact ⟨visit_relative ht r hr, hpos (visit_advance_pos (sliceItems_ascends c base s) ht r hr)⟩
    · exact ⟨gap_relative _ _ r hr, hpos (gap_advance_pos hend r hr)⟩
    · exact ih _ r hr

/-- Each write is meant for the sector of its global bit index. -/
theorem fileRequests_positions (c : Content) (sect base : Nat) (slices : List (List Byte)) :
    transferPositions (512 * (sect + base)) (fileRequests c base slices) =
      (globalBits base slices).map (fun g => 512 * (sect + g)) := by
  induction slices generalizing base with
  | nil => rfl
  | cons s ss ih =>
    have ha := sliceItems_ascends c base s
    have ht := writes_transfer (sliceItems_length c base s)
    have hadv := fileVisit_advances ha ht sliceItems_lt
    have htell : transferPositions (512 * (sect + base))
        (.tell :: fileVisit s.length (writes (sliceItems c base s))) =
          (setBits s).map (fun g => 512 * (sect + (base + g))) := by
      rw [transferPositions, show Req.tell.advance = 0 from rfl, Nat.add_zero,
        fileVisit_positions ha ht, writes, sliceItems, List.map_map, List.map_map]
      simp only [Req.transfer, Bool.false_eq_true, if_false, List.nil_append]
      apply List.map_congr_left
      intro g _
      simp only [Function.comp_apply]
      omega
    rw [fileRequests, transferPositions_append, htell, advances_cons, hadv,
      show 512 * (sect + base) + (Req.tell.advance + 512 * (8 * s.length)) =
        512 * (sect + (base + 8 * s.length)) by simp only [Req.advance]; omega, ih, globalBits,
      List.map_append, List.map_map]
    rfl

theorem visit_filter_transfer {cur : Nat} {items : List (Nat × Req)}
    (ht : ∀ x ∈ items, x.2.transfer = true) :
    (visit cur items).filter Req.transfer = items.map Prod.snd := by
  induction items generalizing cur with
  | nil => rfl
  | cons x items ih =>
    have hgap : (gap cur x.1).filter Req.transfer = [] := by
      rw [List.filter_eq_nil_iff]
      intro r hr
      simp [gap_not_transfer _ _ r hr]
    rw [visit, List.filter_append, hgap, List.nil_append, List.filter_cons_of_pos (ht x (by simp)),
      ih (fun y hy => ht y (by simp [hy])), List.map_cons]

theorem fileRequests_writes (c : Content) (base : Nat) (slices : List (List Byte)) :
    (fileRequests c base slices).filter Req.transfer =
      (globalBits base slices).map (fun g => .write (slice c (512 * g) 512)) := by
  induction slices generalizing base with
  | nil => rfl
  | cons s ss ih =>
    have ht := writes_transfer (sliceItems_length c base s)
    have hgap : (gap (visitEnd 0 (writes (sliceItems c base s)))
        (8 * s.length)).filter Req.transfer = [] := by
      rw [List.filter_eq_nil_iff]
      intro r hr
      simp [gap_not_transfer _ _ r hr]
    rw [fileRequests, List.filter_append, List.filter_cons_of_neg (by simp [Req.transfer]), fileVisit,
      List.filter_append, hgap, visit_filter_transfer ht, List.append_nil, ih, globalBits,
      List.map_append, List.map_map, writes, sliceItems, List.map_map, List.map_map]
    simp only [Function.comp_def]

theorem mem_gap {cur g : Nat} {r : Req} (h : r ∈ gap cur g) : ∃ n, r = .skip n := by
  simp only [gap] at h
  split at h
  · simp at h
  · exact ⟨_, List.mem_singleton.mp h⟩

theorem mem_visit {cur : Nat} {items : List (Nat × Req)} {r : Req} (h : r ∈ visit cur items) :
    (∃ n, r = .skip n) ∨ r ∈ items.map Prod.snd := by
  induction items generalizing cur with
  | nil => simp [visit] at h
  | cons x items ih =>
    simp only [visit, List.mem_append, List.mem_cons] at h
    rcases h with h | rfl | h
    · exact Or.inl (mem_gap h)
    · exact Or.inr (by simp)
    · exact (ih h).imp_right (fun h => by simp [h])

theorem fileRequests_transfer_iff {c : Content} {base : Nat} {slices : List (List Byte)} {r : Req}
    (hr : r ∈ fileRequests c base slices) : r.transfer = true ↔ ∃ data, r = .write data := by
  constructor
  · intro ht
    have hm := List.mem_filter.mpr ⟨hr, ht⟩
    rw [fileRequests_writes] at hm
    obtain ⟨g, _, rfl⟩ := List.mem_map.mp hm
    exact ⟨_, rfl⟩
  · rintro ⟨data, rfl⟩
    induction slices generalizing base with
    | nil => simp [fileRequests] at hr
    | cons s ss ih =>
      simp only [fileRequests, fileVisit, List.cons_append, List.mem_cons, List.mem_append] at hr
      rcases hr with hr | (hr | hr) | hr
      · exact Req.noConfusion hr
      · rcases mem_visit hr with ⟨n, hn⟩ | hm
        · exact Req.noConfusion hn
        · obtain ⟨x, hx, he⟩ := List.mem_map.mp hm
          rw [← he]
          exact writes_transfer (sliceItems_length c base s) x hx
      · obtain ⟨n, hn⟩ := mem_gap hr
        exact Req.noConfusion hn
      · exact ih hr

theorem trace_transfer_reqs (io : Nat → Outcome) (d : Device) (rs : List Req) :
    ((trace io d rs).filter Call.transfer).map Call.req = rs.filter Req.transfer := by
  induction rs generalizing d with
  | nil => rfl
  | cons r rs ih =>
    cases hr : r.transfer with
    | false => simp [trace, Call.transfer, hr, ← ih (d.exec io r)]
    | true => simp [trace, Call.transfer, hr, ← ih (d.exec io r)]

theorem seekTo_reached_iff (io : Nat → Outcome) (target : Content) (sect : Nat) :
    ((openDevice target).exec io (.seekTo (512 * sect))).pos = 512 * sect ↔
      (sect ≠ 0 → io 0 = .full) := by
  change (if io 0 = .full then 512 * sect else 0) = 512 * sect ↔ _
  by_cases h : io 0 = .full
  · simp [h]
  · simp only [h, if_false, imp_false, not_not]
    omega

/-- Writes that succeed are made at the places of their bits exactly when no call that
has to move the device is incomplete before one of them. -/
theorem write_positions_iff (io : Nat → Outcome) (bitmap : List Byte) (c target : Content)
    (sect : Nat) :
    List.Forall₂ (fun call x => call.req = .write x.2 ∧
      (call.outcome = .full → call.pos = 512 * (sect + x.1)))
        ((trace io (openDevice target) (imageRequests c bitmap sect)).filter Call.transfer)
        (savedSectors c bitmap) ↔
      ∀ i j data, i < j → (imageRequests c bitmap sect)[j]? = some (.write data) → io j = .full →
        (imageRequests c bitmap sect)[i]? ≠ some .tell → (i = 0 → sect ≠ 0) → io i = .full := by
  let rs := fileRequests c 0 (slicesOf bitmap)
  let d := (openDevice target).exec io (.seekTo (512 * sect))
  have hbits : globalBits 0 (slicesOf bitmap) = setBits bitmap := by
    rw [globalBits_eq, slicesOf_flatten]
    simp
  have htrace : (trace io (openDevice target) (imageRequests c bitmap sect)).filter Call.transfer =
      (trace io d rs).filter Call.transfer := by
    rw [imageRequests, trace, List.filter_cons_of_neg (by simp [Call.transfer, Req.transfer])]
  have hreqs : List.Forall₂ (fun call x => call.req = .write x.2)
      ((trace io d rs).filter Call.transfer)
      (savedSectors c bitmap) := by
    rw [← List.forall₂_map_left_iff (f := Call.req) (R := fun r (x : Nat × List Byte) => r =
      Req.write x.2),
      ← List.forall₂_map_right_iff (f := fun x : Nat × List Byte => Req.write x.2) (R := Eq),
      List.forall₂_eq_eq_eq, trace_transfer_reqs, fileRequests_writes, hbits, savedSectors,
      List.map_map]
    simp only [Function.comp_def]
  have hle : d.pos ≤ 512 * sect := by
    change (if io 0 = .full then 512 * sect else 0) ≤ 512 * sect
    split <;> omega
  have hrel : ∀ r ∈ rs, r.relative = true := fun r hr => (fileRequests_moves c 0 _ r hr).1
  have hiff := transfers_aligned_iff io (fun o => o = .full) hrel hle
  have hpos : transferPositions (512 * sect) rs = (setBits bitmap).map
      (fun g => 512 * (sect + g)) := by
    have := fileRequests_positions c sect 0 (slicesOf bitmap)
    rwa [hbits, Nat.add_zero] at this
  rw [hpos, List.forall₂_map_right_iff] at hiff
  have hboth : List.Forall₂ (fun call x => call.req = .write x.2 ∧
        (call.outcome = .full → call.pos = 512 * (sect + x.1))) ((trace io d rs).filter Call.transfer)
        (savedSectors c bitmap) ↔
      List.Forall₂ (fun call g => call.outcome = .full → call.pos = 512 * (sect + g))
        ((trace io d rs).filter Call.transfer) (setBits bitmap) := by
    rw [savedSectors, List.forall₂_map_right_iff] at *
    exact ⟨fun h => h.imp (fun _ _ h => h.2), fun h => hreqs.mp (fun _ _ h1 h2 => ⟨h1, h2⟩) h⟩
  rw [htrace, hboth, hiff]
  have hlog : d.log.length = 1 := rfl
  have hget (k : Nat) : (imageRequests c bitmap sect)[k + 1]? = rs[k]? := rfl
  constructor
  · intro h i j data hij hj hfull htell hsect
    obtain ⟨j, rfl⟩ : ∃ k, j = k + 1 := ⟨j - 1, by omega⟩
    rw [hget] at hj
    have htr : (Req.write data).transfer = true :=
      (fileRequests_transfer_iff (List.mem_of_getElem? hj)).mpr ⟨data, rfl⟩
    obtain ⟨hd, hall⟩ := h j _ hj htr (by rw [hlog, Nat.add_comm]; exact hfull)
    cases i with
    | zero => exact (seekTo_reached_iff io target sect).mp hd (hsect rfl)
    | succ i =>
      rw [hget] at htell
      obtain ⟨hlt, _⟩ := List.getElem?_eq_some_iff.mp hj
      have hi : rs[i]? = some rs[i] := List.getElem?_eq_getElem (by omega)
      have hmove := (fileRequests_moves c 0 _ rs[i] (List.getElem_mem _)).2.mpr
        (fun he => htell (by rw [hi, he]))
      have := hall i _ (by omega) hi hmove
      rwa [hlog, Nat.add_comm] at this
  · intro h j r hj htr hfull
    obtain ⟨data, rfl⟩ := (fileRequests_transfer_iff (List.mem_of_getElem? hj)).mp htr
    rw [hlog, Nat.add_comm] at hfull
    refine ⟨(seekTo_reached_iff io target sect).mpr (fun hs => ?_), fun i r' hij hi ha => ?_⟩
    · exact h 0 (j + 1) data (by omega) hj hfull (by simp [imageRequests]) (fun _ => hs)
    · rw [hlog, Nat.add_comm]
      have hne := (fileRequests_moves c 0 _ r' (List.mem_of_getElem? hi)).2.mp ha
      refine h (i + 1) (j + 1) data (by omega) hj hfull ?_ (by omega)
      rw [hget, hi]
      simpa using hne

theorem restoreAligned_iff_trace {C : Codec} (hC : C.Correct) (io : Nat → Outcome)
    {options : Option (List Byte)} {info : List Byte} (hinfo : info ∈ imagerInfos)
    {p : PARAMS} (hread : HeadersRead options info p) (c : Content) (sect : Nat) (mem : Memory)
    (target : Content) {fuel : Nat}
    (hfuel : imageFuel C (compressVolume allFull options info p (openDevice c)) ≤ fuel) :
    RestoreAligned C io fuel options info p c sect mem target ↔
      List.Forall₂ (fun call x => call.req = .write x.2 ∧
        (call.outcome = .full → call.pos = 512 * (sect + x.1)))
        ((trace io (openDevice target) (imageRequests c p.bitmap sect)).filter Call.transfer)
        (savedSectors c p.bitmap) := by
  obtain ⟨st, hst, hdev⟩ := restore_requests io hC hinfo hread c sect mem (openDevice target) hfuel
  have hlog : st.cp.dev.log = trace io (openDevice target) (imageRequests c p.bitmap sect) := by
    rw [hdev, run_log]
    rfl
  rw [← hlog]
  constructor
  · rintro ⟨st', hst', h⟩
    rwa [Option.some.inj (hst'.symm.trans hst)] at h
  · intro h
    exact ⟨st, hst, h⟩

/-- The restore of an image stays aligned exactly when, before each write that succeeds,
no call that has to move the device was incomplete: no seek and no write, the first
seek only if the partition does not start at sector 0. -/
theorem restore_alignment {C : Codec} (hC : C.Correct) (io : Nat → Outcome) {options : Option (List Byte)}
    {info : List Byte} (hinfo : info ∈ imagerInfos) {p : PARAMS} (hread : HeadersRead options info p) (c : Content)
    (sect : Nat) (mem : Memory) (target : Content) {fuel : Nat}
    (hfuel : imageFuel C (compressVolume allFull options info p (openDevice c)) ≤ fuel) :
    RestoreAligned C io fuel options info p c sect mem target ↔
      ∀ i j data, i < j → (imageRequests c p.bitmap sect)[j]? = some (.write data) → io j = .full →
        (imageRequests c p.bitmap sect)[i]? ≠ some .tell → (i = 0 → sect ≠ 0) → io i = .full := by
  rw [restoreAligned_iff_trace hC io hinfo hread c sect mem target hfuel]
  exact write_positions_iff io p.bitmap c target sect

theorem restore_aligned_without_errors :
    RestoreAligned storedCodec allFull
      (imageFuel storedCodec (compressVolume allFull none [] ⟨[0x03], 2, by decide, by decide⟩
        (openDevice (fun _ => 0x55))))
      none [] ⟨[0x03], 2, by decide, by decide⟩ (fun _ => 0x55) 63 freshMemory (fun _ => 0) :=
  (restore_alignment storedCodec_correct allFull (by decide)
    (noKeywords_none.headersRead (by decide) _) _ _ _ _ (Nat.le_refl _)).mpr
    (fun _ _ _ _ _ _ _ _ => rfl)

theorem imageRequests_two (c : Content) (sect : Nat) : imageRequests c [0x03] sect =
    [.seekTo (512 * sect), .tell, .write (slice c (512 * (0 + 0)) 512),
      .write (slice c (512 * (0 + 1)) 512),
      .skip (512 * (8 * 1 - 2))] := by
  have hs : slicesOf [0x03] = [[0x03]] := by decide
  have hb : setBits [0x03] = [0, 1] := by decide
  have hitems : sliceItems c 0 [0x03] =
      [(0, slice c (512 * (0 + 0)) 512), (1, slice c (512 * (0 + 1)) 512)] := by
    rw [sliceItems, hb, List.map_cons, List.map_cons, List.map_nil]
  rw [imageRequests, hs, fileRequests, hitems, fileRequests, List.append_nil]
  simp [fileVisit, writes, visit, visitEnd, gap]

/-- Two allocated sectors: the write of the first fails, that of the second succeeds,
on the first sector of the partition. -/
theorem restore_misaligned_after_failed_write :
    ¬ RestoreAligned storedCodec (fun n => if n = 2 then .fail else .full)
      (imageFuel storedCodec (compressVolume allFull none [] ⟨[0x03], 2, by decide, by decide⟩
        (openDevice (fun _ => 0x55))))
      none [] ⟨[0x03], 2, by decide, by decide⟩ (fun _ => 0x55) 63 freshMemory (fun _ => 0) := by
  rw [restoreAligned_iff_trace storedCodec_correct _ (by decide)
    (noKeywords_none.headersRead (by decide) _) _ _ _ _ (Nat.le_refl _), write_positions_iff, imageRequests_two]
  intro h
  have h2 := h 2 3 _ (by decide) rfl rfl (by rw [List.getElem?_cons_succ]; simp) (by decide)
  exact absurd h2 (by decide)

end PulseImaging
