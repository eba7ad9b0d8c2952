import PulseImaging.BootTransfer
import PulseImaging.RestoreImage
import PulseImaging.RoundTrip

/-! The boot loader and `restore` do the same to the disk with a file of an image. -/

namespace PulseImaging

theorem OUTBUFF_eq : OUTBUFF = TOTALLG := rfl

section Write

variable {E : GetEnv} {rel : E.decoder.State → List Byte → List Byte → Prop} {file : List Byte} {p : Part}
  {disk₀ : Content} {s : GetState E.decoder.State}

theorem Boot.produced_prefix (h : Boot E rel file p disk₀ s) : s.produced <+: p.output := by
  by_cases hno : s.ending = .no
  · obtain ⟨-, z, o, -, -, -, hout⟩ := h.stream hno
    exact ⟨o, hout.symm⟩
  · rw [(h.ended hno).2.1]

theorem Boot.dbufSize_eq (h : Boot E rel file p disk₀ s) (hfull : s.dbufFull = true) :
    s.dbufSize = s.outPos := by
  rcases h.output.stage with ⟨-, -, hs⟩ | ⟨-, -, -, hs, -⟩ | ⟨-, -, hs, -⟩
  · rw [(hs hfull).1, (hs hfull).2]
  · exact hs
  · exact Bool.noConfusion (hfull.symm.trans hs)

/-- The first full buffer holds the header. -/
theorem Boot.buffer_header (h : Boot E rel file p disk₀ s) (hr : p.Shaped) (hp : p.Sectors)
    (hfull : s.dbufFull = true) (hfirst : s.firstblock = true) :
    s.buffer = p.header ∧ s.written = [] := by
  have hlen := h.output.buffer_length
  have hpos := h.output.outPos_le
  have hkey : s.outPos = OUTBUFF ∧ s.written = [] ∧ s.produced = s.buffer.take s.outPos := by
    rcases h.output.stage with ⟨-, hpd, hs⟩ | ⟨hend, -, -, -, hpd | hfl⟩ | ⟨-, -, hs, -⟩
    · exact ⟨(hs hfull).2, hpd.header hfirst⟩
    · obtain ⟨hw, hprod⟩ := hpd.header hfirst
      refine ⟨?_, hw, hprod⟩
      have hall := (h.ended (by rw [hend]; simp)).2.1
      have hout := output_length hr hp
      rw [← hall, hprod, List.length_take] at hout
      have := TOTALLG_sectors
      rw [OUTBUFF_eq] at hpos ⊢
      omega
    · exact Bool.noConfusion (hfl.firstblock.symm.trans hfirst)
    · exact Bool.noConfusion (hfull.symm.trans hs)
  obtain ⟨hout, hw, hprod⟩ := hkey
  rw [hout, List.take_of_length_le hlen.le] at hprod
  have hpre : s.buffer <+: p.header ++ p.secs.flatten := hprod ▸ h.produced_prefix
  have hhead := hr.header_length
  exact ⟨(List.prefix_of_prefix_length_le hpre (List.prefix_append _ _)
    (by rw [hlen, hhead, OUTBUFF_eq])).eq_of_length (by rw [hlen, hhead, OUTBUFF_eq]), hw⟩

/-- The sectors of a full buffer are those that follow the ones written before. -/
theorem Boot.buffer_sectors (h : Boot E rel file p disk₀ s) (hr : p.Shaped)
    (hfull : s.dbufFull = true) (hfirst : s.firstblock = false) :
    512 ∣ s.written.length ∧
      s.written ++ s.buffer.take (512 * (s.dbufSize / 512)) <+: p.secs.flatten ∧
      (s.buffer.take (512 * (s.dbufSize / 512))).length = 512 * (s.dbufSize / 512) := by
  have hlen := h.output.buffer_length
  have hpos := h.output.outPos_le
  have hsize := h.dbufSize_eq hfull
  have hpre : s.produced.drop OUTBUFF <+: p.secs.flatten := by
    have := h.produced_prefix.drop OUTBUFF
    rwa [Part.output, List.drop_left' (hr.header_length.trans OUTBUFF_eq.symm)] at this
  have hkey : 512 ∣ s.written.length ∧
      s.written ++ s.buffer.take (512 * (s.dbufSize / 512)) <+: s.produced.drop OUTBUFF := by
    rw [hsize]
    rcases h.output.stage with ⟨-, hpd, -⟩ | ⟨-, -, -, -, hpd | hfl⟩ | ⟨-, -, hs, -⟩
    · obtain ⟨rest, hd, -, -⟩ := hpd.written hfirst (by omega)
      exact ⟨hpd.whole, rest, hd.symm⟩
    · obtain ⟨rest, hd, -, -⟩ := hpd.written hfirst (by omega)
      exact ⟨hpd.whole, rest, hd.symm⟩
    · obtain ⟨rest, hd, -⟩ := hfl.data
      exact ⟨hfl.whole, rest, by rw [hfl.empty, hd]; simp⟩
    · exact Bool.noConfusion (hfull.symm.trans hs)
  refine ⟨hkey.1, hkey.2.trans hpre, ?_⟩
  rw [List.length_take, Nat.min_eq_left]
  have := Nat.mul_div_le s.dbufSize 512
  omega

/-- The numbers are 32-bit and the disk holds the sectors of the image. -/
structure Fits (E : GetEnv) (p : Part) : Prop where
  sect_lt : E.inSect < 2 ^ 32
  total_lt : E.total < 2 ^ 32
  sectors : ∀ g ∈ setBits p.slice, E.inSect + g < E.total

theorem flushed_ending (e : Ending) : (if e = .flushing then Ending.over else e) = .no ↔ e = .no := by
  cases e <;> simp

theorem Boot.writeLoop_eq (h : Boot E rel file p disk₀ s) (hr : p.Shaped) (hp : p.Sectors)
    (hfit : Fits E p) (past : Byte) (hfull : s.dbufFull = true) (hfirst : s.firstblock = false) :
    writeLoop E.total s.alloc past s.buffer (s.dbufSize / 512) (s.dbufSize / 512) 0 s.cursor s.disk =
      some (cursorAt E.inSect (visitEnd 0
        (writes (p.items.take (s.written.length / 512 + s.dbufSize / 512)))),
        puts E.inSect disk₀ (p.items.take (s.written.length / 512 + s.dbufSize / 512))) := by
  obtain ⟨⟨w, hw⟩, hpre, hlen⟩ := h.buffer_sectors hr hfull hfirst
  have hdiv : s.written.length / 512 = w := by omega
  rw [h.ondisk.alloc hfirst, h.ondisk.cursor hfirst, h.ondisk.disk hfirst, hdiv]
  generalize hn : s.dbufSize / 512 = n at hpre hlen ⊢
  have hcount := hp.secs_count
  have hflat := length_flatten_512 hp.secs_length
  have hle : w + n ≤ p.secs.length := by
    have := hpre.length_le
    rw [List.length_append, hlen, hflat] at this
    omega
  obtain ⟨rest, hrest⟩ := hpre
  have hfl : s.buffer.take (512 * n) = ((p.secs.drop w).take n).flatten := by
    have hd : (p.secs.flatten.drop (512 * w)).take (512 * n) = s.buffer.take (512 * n) := by
      rw [← hrest, List.append_assoc, List.drop_left' hw, List.take_left' hlen]
    rw [← hd, drop_flatten_512 hp.secs_length,
      take_flatten_512 (fun x hx => hp.secs_length x (List.mem_of_mem_drop hx))]
  have hslice : (setBits (zeroPad ALLOCLG p.slice)) = setBits p.slice := setBits_zeroPad _ _
  have hrem : remaining (zeroPad ALLOCLG p.slice) (visitEnd 0 (writes (p.items.take w))) =
      ((setBits p.slice).drop w).take n ++ ((setBits p.slice).drop w).drop n := by
    rw [List.take_append_drop]
    exact remaining_visitEnd ((remaining_zero _).trans hslice) hcount w
  have hk : visitEnd 0 (writes (p.items.take w)) ≤ 8 * (zeroPad ALLOCLG p.slice).length := by
    refine visitEnd_le (Nat.zero_le _) (fun x hx => ?_)
    obtain ⟨y, hy, rfl⟩ := List.mem_map.mp hx
    have hy' := List.mem_of_mem_take hy
    have := setBits_lt (List.of_mem_zip (show (y.1, y.2) ∈ (setBits p.slice).zip p.secs from hy')).1
    have := hr.slice_le
    rw [zeroPad_length hr.slice_le]
    change y.1 < _
    omega
  have hl1 : (((setBits p.slice).drop w).take n).length = n := by
    rw [List.length_take, List.length_drop]
    omega
  have hl2 : ((p.secs.drop w).take n).length = n := by
    rw [List.length_take, List.length_drop]
    omega
  have hzip : (((setBits p.slice).drop w).take n).zip ((p.secs.drop w).take n) =
      (p.items.drop w).take n := by
    rw [Part.items, List.zip, List.drop_zipWith, List.take_zipWith]
  obtain ⟨hloop, -⟩ := PulseImaging.writeLoop_eq past (n := n) (i := 0) (S := E.inSect)
    hfit.total_lt hrem hk (hl1.trans hl2.symm) (by omega)
    (fun x hx => hp.secs_length x (List.mem_of_mem_drop (List.mem_of_mem_take hx)))
    (by rw [← hfl, Nat.mul_zero, List.drop_zero, List.take_append_drop])
    (fun g hg => hfit.sectors g (List.mem_of_mem_drop (List.mem_of_mem_take hg))) hl2.le
  rw [hloop, hzip, ← visitEnd_append, ← writes_append, ← puts_append, ← List.take_add]

theorem work_lt_of_written {t : GetState E.decoder.State} (hl : t.lastblk = s.lastblk)
    (hf : t.fed = s.fed) (hp : t.produced = s.produced) (hc : t.compressedFull = s.compressedFull)
    (hd : t.dbufFull = false) (hs : s.dbufFull = true) (he : t.ending = .no ↔ s.ending = .no) :
    work file p t < work file p s := by
  simp only [work, hl, hf, hp, hc, hd, hs, he, Bool.false_eq_true, if_false, if_true]
  omega

theorem Boot.writeBuffer (h : Boot E rel file p disk₀ s) (hr : p.Shaped) (hp : p.Sectors)
    (hfit : Fits E p) (past : Byte) (hfull : s.dbufFull = true) :
    ∃ t, s.writeBuffer E.total past = some t ∧ Boot E rel file p disk₀ t ∧ Room t ∧ SameWait s t ∧
      work file p t < work file p s := by
  have hend := flushed_ending s.ending
  have hroom : 0 < OUTBUFF := by decide
  cases hfirst : s.firstblock with
  | true =>
    obtain ⟨hbuf, hw⟩ := h.buffer_header hr hp hfull hfirst
    obtain ⟨hdisk, hsave, hsect⟩ := h.ondisk.header hfirst
    have hwrite : s.writeBuffer E.total past = some { s.readHeader with
        outPos := 0, dbufFull := false, ending := if s.ending = .flushing then .over
        else s.ending } := by
      simp only [GetState.writeBuffer, hfirst, if_true, Option.map_some]
      rfl
    refine ⟨_, hwrite, ⟨h.channel.writeBuffer hwrite, h.output.writeBuffer hfull hwrite,
      ⟨fun hc => Bool.noConfusion hc, fun _ => ?_, fun _ => ?_, fun _ => ?_, fun _ => ?_⟩,
      h.accepted, h.tftpend,
      h.count, h.slots, h.chunk, fun hc => h.stream (hend.mp hc),
      fun hc => h.ended (fun hn => hc (hend.mpr hn))⟩, fun _ => hroom, ⟨rfl, rfl⟩, ?_⟩
    · change (s.buffer.drop HEADERLG).take ALLOCLG = zeroPad ALLOCLG p.slice
      rw [hbuf, hr.header_bitmap, List.take_of_length_le (zeroPad_length hr.slice_le).le]
    · change ((s.saveSect + val "ALLOCTABLELG" s.buffer * 8) % 2 ^ 32).toNat = _
      rw [hbuf, hsave]
    · change s.disk = puts E.inSect disk₀ (p.items.take (s.written.length / 512))
      rw [hw, hdisk]
      rfl
    · change (⟨s.cursor.sect, 0, 1⟩ : Cursor) =
        cursorAt E.inSect (visitEnd 0 (writes (p.items.take (s.written.length / 512))))
      rw [hw, hsect]
      change (⟨E.inSect, 0, 1⟩ : Cursor) = ⟨(E.inSect + 0) % 2 ^ 32, 0 / 8, 2 ^ (0 % 8)⟩
      rw [Nat.add_zero, Nat.mod_eq_of_lt hfit.sect_lt]
      rfl
    · exact work_lt_of_written rfl rfl rfl rfl rfl hfull hend
  | false =>
    obtain ⟨⟨w, hw⟩, -, hlen⟩ := h.buffer_sectors hr hfull hfirst
    have hloop := h.writeLoop_eq hr hp hfit past hfull hfirst
    have hwrite : s.writeBuffer E.total past = some { s with
        cursor := cursorAt E.inSect
          (visitEnd 0 (writes (p.items.take (s.written.length / 512 + s.dbufSize / 512))))
        disk := puts E.inSect disk₀ (p.items.take (s.written.length / 512 + s.dbufSize / 512))
        written := s.written ++ s.buffer.take (512 * (s.dbufSize / 512))
        outPos := 0, dbufFull := false, ending := if s.ending = .flushing then .over
        else s.ending } := by
      simp only [GetState.writeBuffer, hfirst, Bool.false_eq_true, if_false, hloop, Option.map_some]
    have hnum : (s.written ++ s.buffer.take (512 * (s.dbufSize / 512))).length / 512 =
        s.written.length / 512 + s.dbufSize / 512 := by
      rw [List.length_append, hlen]
      omega
    refine ⟨_, hwrite, ⟨h.channel.writeBuffer hwrite, h.output.writeBuffer hfull hwrite,
      ⟨fun hc => Bool.noConfusion (hfirst.symm.trans hc), fun _ => h.ondisk.alloc hfirst,
        fun _ => h.ondisk.saveSect hfirst, fun _ => by rw [hnum], fun _ => by rw [hnum]⟩,
        h.accepted, h.tftpend,
      h.count, h.slots, h.chunk, fun hc => h.stream (hend.mp hc),
      fun hc => h.ended (fun hn => hc (hend.mpr hn))⟩, fun _ => hroom, ⟨rfl, rfl⟩, ?_⟩
    exact work_lt_of_written rfl rfl rfl rfl rfl hfull hend

theorem Boot.body (hZ : E.decoder.Decodes rel) (h : Boot E rel file p disk₀ s) (hroom : Room s)
    (hr : p.Shaped) (hp : p.Sectors) (hfit : Fits E p) (past : Byte) :
    ∃ t, E.body past s = some (.go t) ∧ Boot E rel file p disk₀ t ∧ Room t ∧ SameWait s t ∧
      (work file p t < work file p s ∨ work file p t = work file p s ∧ Idle t) := by
  by_cases hfull : s.dbufFull = true
  · obtain ⟨t, ht, hboot, hrm, hwait, hwork⟩ := h.writeBuffer hr hp hfit past hfull
    exact ⟨t, by simp [GetEnv.body, hfull, ht], hboot, hrm, hwait, Or.inl hwork⟩
  · have hfull : s.dbufFull = false := by simpa using hfull
    have hload := h.load
    have hwait := (load_same s).1
    have hsame : s.load.dbufFull = false ∧ s.load.outPos = s.outPos := by
      simp only [GetState.load]
      split <;> exact ⟨hfull, rfl⟩
    have hlt : s.load.outPos < OUTBUFF := by
      rw [hsame.2]
      exact hroom hfull
    by_cases hnil : s.load.availIn = []
    · have hloaded : s.load.ending = .no → s.load.compressedFull = false := by
        simp only [GetState.load] at hnil ⊢
        split at hnil
        · rename_i hc
          exact absurd hnil (h.chunk hc.2.1)
        · rename_i hc
          rw [if_neg hc]
          intro hno
          by_contra hcf
          exact hc ⟨hno, by simpa using hcf, hnil⟩
      obtain ⟨t, ht, hboot, hrm, hw, hwork⟩ := hload.collect (fun _ => hlt) hsame.1 hnil hloaded
      have hbody : E.body past s = some (.go t) := by
        simp [GetEnv.body, hfull, hnil, ht]
      refine ⟨t, hbody, hboot, hrm, ⟨hw.1.trans hwait.1, hw.2.trans hwait.2⟩, ?_⟩
      rw [← load_work s]
      rcases hwork with hlt | ⟨rfl, hidle⟩
      · exact Or.inl hlt
      · exact Or.inr ⟨rfl, hidle⟩
    · obtain ⟨t, ht, hboot, hrm, hw, hwork⟩ := hload.inflateTurn hZ hnil hlt hsame.1
      rw [load_work] at hwork
      exact ⟨t, by simp [GetEnv.body, hfull, hnil, hlt, ht], hboot, hrm,
        ⟨hw.1.trans hwait.1, hw.2.trans hwait.2⟩, Or.inl hwork⟩

/-- A served turn makes progress if a packet can be had. -/
theorem Boot.step (hZ : E.decoder.Decodes rel) (h : Boot E rel file p disk₀ s) (hroom : Room s)
    (hr : p.Shaped) (hp : p.Sectors) (hfit : Fits E p) {e : Event} (he : Served file s e) :
    (∃ t, E.step s e = some (.running t) ∧ Boot E rel file p disk₀ t ∧ Room t ∧
      work file p t + (if e.poll.isSome then 1 else 0) ≤ work file p s) ∨
    (∃ t, E.step s e = some (.returned 0 t) ∧ Boot E rel file p disk₀ t ∧ t.ending = .over) := by
  obtain ⟨t, hbody, hboot, hrm, hwait, hwork⟩ := h.body hZ hroom hr hp hfit e.past
  obtain ⟨u, hclock, hubt, huroom, hul, huw, huidle⟩ : ∃ u, t.clock e.tick = .go u ∧
      Boot E rel file p disk₀ u ∧
      Room u ∧ u.lastblk = s.lastblk ∧ work file p u = work file p t ∧ (Idle t → Idle u) := by
    simp only [GetState.clock]
    split
    · rename_i htick
      have hlt : ¬ t.timeout + 1 > 10 := by
        rw [hwait.2]
        exact fun hc => he.1 ⟨htick, by omega⟩
      rw [if_neg hlt]
      exact ⟨_, rfl, hboot.timeout _, hrm, hwait.1, rfl,
        fun hi => ⟨hi.dbufFull, hi.slot, hi.finished⟩⟩
    · exact ⟨t, rfl, hboot, hrm, hwait.1, rfl, id⟩
  have hturn : E.turn s e = some (u.poll e.poll) := by
    simp [GetEnv.turn, hbody, Flow.andThen, hclock]
  rcases hubt.poll huroom (d := e.poll) (fun d hd => by rw [hul]; exact he.2 d hd) with
    ⟨v, hv, hvb, hvr, hle, hlt⟩ | ⟨v, hv, hvb, hover⟩
  · refine Or.inl ⟨v, by simp [GetEnv.step, hturn, hv], hvb, hvr, ?_⟩
    split
    · rename_i hsome
      rcases hwork with hw | ⟨hw, hidle⟩
      · omega
      · have := hlt (huidle hidle) hsome
        omega
    · rcases hwork with hw | ⟨hw, -⟩ <;> omega
  · exact Or.inr ⟨v, by simp [GetEnv.step, hturn, hv], hvb, hover⟩

/-- The packets that are offered in a run. -/
def deliveries (evs : List Event) : Nat := evs.countP (fun e => e.poll.isSome)

theorem Boot.run (hZ : E.decoder.Decodes rel) (h : Boot E rel file p disk₀ s) (hroom : Room s)
    (hr : p.Shaped) (hp : p.Sectors) (hfit : Fits E p) {evs : List Event}
    (hserved : ∀ pre e post t, evs = pre ++ e :: post → E.run s pre = some (.running t) →
      Served file t e) :
    (∃ t, E.run s evs = some (.running t) ∧ work file p t + deliveries evs ≤ work file p s) ∨
    (∃ t, E.run s evs = some (.returned 0 t) ∧ Boot E rel file p disk₀ t ∧ t.ending = .over) := by
  induction evs generalizing s with
  | nil => exact Or.inl ⟨s, rfl, Nat.le_refl _⟩
  | cons e es ih =>
    rcases h.step hZ hroom hr hp hfit (hserved [] e es s rfl rfl) with ⟨t, ht, hboot, hrm, hwork⟩ |
      ⟨t, ht, hboot, hover⟩
    · have hrun : ∀ evs, E.run s (e :: evs) = E.run t evs := by
        intro evs
        rw [GetEnv.run, ht, Option.bind_some]
      have hrest := ih hboot hrm (fun pre e' post u hes hu => hserved (e :: pre) e' post u
        (by rw [hes]; rfl) (by rw [hrun]; exact hu))
      have hcount : deliveries (e :: es) = deliveries es + (if e.poll.isSome then 1 else 0) :=
        List.countP_cons
      rw [hrun, hcount]
      rcases hrest with ⟨u, hu, hw⟩ | hret
      · exact Or.inl ⟨u, hu, by omega⟩
      · exact Or.inr hret
    · exact Or.inr ⟨t, by rw [GetEnv.run, ht, Option.bind_some], hboot, hover⟩

theorem Boot.final (h : Boot E rel file p disk₀ s) (hr : p.Shaped) (hp : p.Sectors) (hover : s.ending = .over) :
    s.disk = puts E.inSect disk₀ p.items ∧
      s.saveSect = ((E.inSect + val "ALLOCTABLELG" p.header * 8) % 2 ^ 32).toNat := by
  rcases h.output.stage with ⟨hend, -, -⟩ | ⟨hend, -, -, -, -⟩ | ⟨-, -, -, hfl⟩
  · exact Ending.noConfusion (hover.symm.trans hend)
  · exact Ending.noConfusion (hover.symm.trans hend)
  · obtain ⟨rest, hd, hlt⟩ := hfl.data
    obtain ⟨w, hw⟩ := hfl.whole
    have hsecs := length_flatten_512 hp.secs_length
    have hlen := congrArg List.length hd
    rw [(h.ended (by rw [hover]; simp)).2.1, Part.output,
      List.drop_left' (hr.header_length.trans OUTBUFF_eq.symm),
      List.length_append, hsecs] at hlen
    have hall : s.written.length / 512 = p.secs.length := by omega
    rw [h.ondisk.disk hfl.firstblock, hall, items_take_all]
    exact ⟨rfl, h.ondisk.saveSect hfl.firstblock⟩

theorem Boot.start (hZ : E.decoder.Decodes rel) (hr : p.Shaped) (hp : p.Sectors)
    (hrel : rel (E.init 0) file p.output) (info : ImageInfo) {alloc buffer : List Byte}
    (hbuf : buffer.length = OUTBUFF) :
    Boot E rel file p disk₀ (E.start disk₀ info alloc buffer) := by
  have hne : file ≠ [] := by
    rintro rfl
    have hout := output_length hr hp
    rw [hZ.trailer hrel, List.length_nil] at hout
    omega
  refine ⟨Channel.start E disk₀ info alloc buffer, Output.start E disk₀ info hbuf,
    ⟨fun _ => ⟨rfl, rfl, rfl⟩, fun hc => Bool.noConfusion hc, fun hc => Bool.noConfusion hc,
      fun hc => Bool.noConfusion hc, fun hc => Bool.noConfusion hc⟩, rfl, ?_, Nat.zero_le _,
      fun _ j _ => Or.inl rfl,
    fun hc => Bool.noConfusion hc, fun _ => ⟨rfl, file, p.output, hrel, hne, rfl, rfl⟩,
    fun hc => absurd rfl hc⟩
  simp [GetEnv.start]

theorem nextPacket_exists (file : List Byte) {lastblk : Int} (hlt : lastblk + 1 < 2 ^ 16) :
    lastblk = -1 ∨ 0 ≤ lastblk → ∃ d, NextPacket file lastblk d := by
  rintro (hl | hl)
  · exact ⟨⟨6, 0, [], by decide, by decide, by simp⟩, Or.inl ⟨hl, rfl⟩⟩
  · refine ⟨⟨3, (lastblk + 1).toNat, (file.drop (TFTPBLOCK * lastblk.toNat)).take TFTPBLOCK,
      by decide, by omega, List.length_take_le _ _⟩, Or.inr ⟨hl, rfl, ?_, rfl⟩⟩
    change (((lastblk + 1).toNat : Nat) : Int) = lastblk + 1
    omega

/-- A server that always has the next packet completes the transfer, if the blocks can be
numbered. -/
theorem Boot.completes (hZ : E.decoder.Decodes rel) (h : Boot E rel file p disk₀ s)
    (hroom : Room s) (hr : p.Shaped) (hp : p.Sectors) (hfit : Fits E p)
    (hsmall : file.length / TFTPBLOCK + 2 < 2 ^ 16) :
    ∃ evs, (∀ pre e post t, evs = pre ++ e :: post → E.run s pre = some (.running t) →
      Served file t e) ∧
      ∃ t, E.run s evs = some (.returned 0 t) := by
  obtain ⟨n, hn⟩ : ∃ n, work file p s = n := ⟨_, rfl⟩
  induction n using Nat.strongRecOn generalizing s with
  | ind n ih =>
    have hlast : s.lastblk = -1 ∨ 0 ≤ s.lastblk := by
      rcases h.channel.lastblk with hl | hl
      · omega
      · exact Or.inl hl.1
    have hlt : s.lastblk + 1 < 2 ^ 16 := by
      have := h.count
      rcases h.channel.lastblk with hl | hl <;> omega
    obtain ⟨d, hd⟩ := nextPacket_exists file hlt hlast
    have hserved : Served file s ⟨false, some d, 0⟩ :=
      ⟨fun hc => Bool.noConfusion hc.1, fun d' hd' => by obtain rfl := Option.some.inj hd'; exact hd⟩
    rcases h.step hZ hroom hr hp hfit hserved with ⟨t, ht, hboot, hrm, hwork⟩ | ⟨t, ht, hboot, -⟩
    · have hrun : ∀ evs, E.run s (⟨false, some d, 0⟩ :: evs) = E.run t evs := by
        intro evs
        rw [GetEnv.run, ht, Option.bind_some]
      obtain ⟨evs, hall, u, hu⟩ := ih (work file p t) (by simp at hwork; omega) hboot hrm rfl
      refine ⟨⟨false, some d, 0⟩ :: evs, fun pre e post v hes hv => ?_, u, by rw [hrun, hu]⟩
      cases pre with
      | nil =>
        obtain ⟨rfl, -⟩ := List.cons.inj hes
        obtain rfl : s = v := by simpa [GetEnv.run] using hv
        exact hserved
      | cons e' pre =>
        obtain ⟨rfl, hrest⟩ := List.cons.inj hes
        exact hall pre e post v hrest (by rw [← hrun]; exact hv)
    · refine ⟨[⟨false, some d, 0⟩], fun pre e post v hes hv => ?_, t,
        by rw [GetEnv.run, ht, Option.bind_some]⟩
      cases pre with
      | nil =>
        obtain ⟨rfl, -⟩ := List.cons.inj hes
        obtain rfl : s = v := by simpa [GetEnv.run] using hv
        exact hserved
      | cons e' pre => simp at hes

end Write

/-! ### The value of `ALLOCTABLELG` -/

theorem digitOf_digitByte {d : Nat} (h : d < 10) : digitOf 10 (digitByte d) = some d := by
  interval_cases d <;> rfl

theorem parseDigits_decimal {n : Nat} (hn : n < 2 ^ 31) (found : Bool) (rest : List Byte) :
    parseDigits 10 0 found (decimal n ++ rest) = parseDigits 10 n true rest := by
  induction n using Nat.strongRecOn generalizing rest with
  | ind n ih =>
    by_cases h : n < 10
    · rw [decimal_lt_ten h, List.singleton_append, parseDigits, digitOf_digitByte h]
      simp only [Nat.zero_mul, Nat.zero_add]
      rw [if_neg (by omega)]
    · rw [decimal_ge_ten (by omega), List.append_assoc, ih (n / 10) (by omega) (by omega),
        List.singleton_append, parseDigits, digitOf_digitByte (Nat.mod_lt n (by decide))]
      have hval : n / 10 * 10 + n % 10 = n := by omega
      simp only [hval]
      rw [if_neg (by omega)]

theorem toLower_digit {b : Byte} (h : isDigit b = true) : toLower b ≠ 120 := by
  rw [isDigit_iff] at h
  have : ¬ (65 ≤ b ∧ b ≤ 90) := by
    rintro ⟨h1, -⟩
    rw [UInt8.le_iff_toNat_le] at h1
    have : (65 : Byte).toNat = 65 := rfl
    omega
  rw [toLower, if_neg this]
  rintro rfl
  simp at h

theorem safeParseMaxint_decimal {n : Nat} (hn : n < 2 ^ 31) {c : Byte} (rest : List Byte)
    (hc : digitOf 10 c = none) (hx : toLower c ≠ 120) :
    safeParseMaxint (decimal n ++ c :: rest) = some n := by
  have hparse : parseDigits 10 0 false (decimal n ++ c :: rest) = some n := by
    rw [parseDigits_decimal hn, parseDigits, hc]
    rfl
  obtain ⟨b, ds, hds⟩ := List.exists_cons_of_ne_nil (decimal_ne_nil n)
  have hnext : ∀ d t, decimal n ++ c :: rest = b :: d :: t → toLower d ≠ 120 := by
    intro d t he
    cases ds with
    | nil =>
      rw [hds] at he
      obtain ⟨rfl, -⟩ : c = d ∧ rest = t := by simpa using he
      exact hx
    | cons e ds =>
      rw [hds] at he
      obtain ⟨rfl, -⟩ : e = d ∧ ds ++ c :: rest = t := by simpa using he
      exact toLower_digit (decimal_isDigit n e (by simp [hds]))
  cases hl : ds ++ c :: rest with
  | nil => simp at hl
  | cons d t =>
    have hcons : decimal n ++ c :: rest = b :: d :: t := by rw [hds, List.cons_append, hl]
    rw [hcons] at hparse ⊢
    rw [safeParseMaxint, if_neg (fun h => hnext d t hcons h.2)]
    exact hparse

theorem val_decimal {key : String} {buffer : List Byte} {n : Nat} (hn : n < 2 ^ 31) {c : Byte} {rest : List Byte}
    (hc : digitOf 10 c = none) (hx : toLower c ≠ 120)
    (h : strstr (ascii key ++ ascii "=") (cstr buffer) =
      some ((ascii key ++ ascii "=") ++ (decimal n ++ c :: rest))) :
    val key buffer = n ∧ existField key buffer = true := by
  have hlen : key.length + 1 = (ascii key ++ ascii "=").length := by simp [ascii, String.length_toList]
  have htext : fieldText key buffer = some (decimal n ++ c :: rest) := by
    rw [fieldText, h, Option.map_some, hlen, List.drop_left]
  constructor
  · rw [val, htext]
    simp only [safeParseMaxint_decimal hn rest hc hx]
  · rw [existField, htext, Option.isSome_some]

theorem val_alloctablelg {buffer : List Byte} {n : Nat} (hn : n < 2 ^ 31)
    (h : strstr alloctablelgKey (cstr buffer) = some (alloctablelgKey ++ (decimal n ++ ascii "\n"))) :
    val "ALLOCTABLELG" buffer = n :=
  (@val_decimal "ALLOCTABLELG" _ _ hn 10 _ (by decide) (by decide) h).1

/-- The header of file `i`, whose `options` line does not give a length of the bitmap. -/
theorem strstr_header {info : List Byte} (hinfo : info ∈ imagerInfos) {nb_sect nb : Nat} (hs : nb_sect < 2 ^ 64)
    (hn : nb < 2 ^ 31) {options : Option (List Byte)} {i : Nat} (hkey : ¬ alloctablelgKey <:+: filestring options i)
    {slice : List Byte} (hle : slice.length ≤ ALLOCLG) :
    strstr alloctablelgKey (cstr (imageHeader (headerText (if i = 0 then firststring nb_sect nb info else [])
      (filestring options i) slice.length) slice)) =
        some (alloctablelgKey ++ (decimal slice.length ++ ascii "\n")) := by
  have hfile0 := filestring_zero_not_mem options i
  have hfile := filestring_length_le options i
  split
  · exact strstr_alloctablelg (alloctablelgKey_absent hinfo hkey nb_sect nb)
      (headerText_zero_not_mem (firststring_zero_not_mem hinfo nb_sect nb) hfile0 _)
      (headerText_length_lt (firststring_length_le hinfo hs hn) hfile hle) slice
  · exact strstr_alloctablelg hkey (headerText_zero_not_mem (by simp) hfile0 _)
      (headerText_length_lt (by simp) hfile hle) slice

theorem extent_eq {p : Part} (h : p.lg = p.slice.length) : p.extent = 8 * p.slice.length := by
  have hle := visitEnd_items_le p
  rw [Part.extent, h]
  split <;> omega

/-! ### The two restores -/

/-- Packets after which a transfer of `file`, which stands for `output`, is complete. -/
def transferBound (file output : List Byte) : Nat :=
  file.length / TFTPBLOCK + 3 * (file.length + output.length) + 5

theorem work_start (E : GetEnv) (disk : Content) (info : ImageInfo)
    (alloc buffer file : List Byte) (p : Part) :
    work file p (E.start disk info alloc buffer) = transferBound file p.output := by
  change file.length / TFTPBLOCK + 2 - 0 + 3 * (file.length - 0 + (p.output.length - 0)) +
    0 + 1 + 2 = _
  rw [transferBound]
  generalize file.length / TFTPBLOCK = blocks
  omega

/-- A file, received in order, and its restore. -/
theorem boot_restore_part {Z : Inflater} {relZ : Z.State → List Byte → List Byte → Prop} {E : GetEnv}
    {rel : E.decoder.State → List Byte → List Byte → Prop} {file : List Byte} {p : Part} (hZ : Z.Decodes relZ)
    (hE : E.decoder.Decodes rel) (hr : p.Shaped) (hp : p.Sectors) (hfit : Fits E p)
    (hrelZ : relZ Z.init file p.output) (hrel : rel (E.init 0) file p.output) (info : ImageInfo)
    (alloc : List Byte) {buffer : List Byte} (hbuf : buffer.length = OUTBUFF) {st : RestoreState}
    (hst : st.buffer.length = TOTALLG) (hpos : st.cp.dev.pos = 512 * E.inSect) {fuel : Nat}
    (hfuel : file.length + p.output.length < fuel) {evs : List Event}
    (hserved : ∀ pre e post t, evs = pre ++ e :: post →
      E.run (E.start st.cp.dev.content info alloc buffer) pre = some (.running t) → Served file t e) :
    ∃ r, restoreAttempt Z allFull fuel file st = some (true, r) ∧ r.cp.dev.pos = 512 * (E.inSect + p.extent) ∧
      (E.run (E.start st.cp.dev.content info alloc buffer) evs).isSome ∧
      (transferBound file p.output < deliveries evs →
        ∃ s, E.run (E.start st.cp.dev.content info alloc buffer) evs = some (.returned 0 s)) ∧
      ∀ code s, E.run (E.start st.cp.dev.content info alloc buffer) evs = some (.returned code s) →
        code = 0 ∧ s.disk = r.cp.dev.content ∧
        s.saveSect = ((E.inSect + val "ALLOCTABLELG" p.header * 8) % 2 ^ 32).toNat := by
  obtain ⟨r, hatt, -, hc, hrpos, -⟩ := restoreAttempt_content hZ hr hp hst hrelZ hfuel hpos
  have hboot : Boot E rel file p st.cp.dev.content (E.start st.cp.dev.content info alloc buffer) :=
    Boot.start hE hr hp hrel info hbuf
  have hroom : Room (E.start st.cp.dev.content info alloc buffer) :=
    fun _ => (by decide : 0 < OUTBUFF)
  refine ⟨r, hatt, hrpos, ?_⟩
  rcases hboot.run hE hroom hr hp hfit hserved with ⟨t, ht, hw⟩ | ⟨t, ht, hbt, hover⟩
  · rw [work_start] at hw
    refine ⟨by rw [ht]; rfl, fun hmany => by omega, fun code s hs => ?_⟩
    rw [ht] at hs
    simp at hs
  · refine ⟨by rw [ht]; rfl, fun _ => ⟨t, ht⟩, fun code s hs => ?_⟩
    obtain ⟨rfl, rfl⟩ : 0 = code ∧ t = s := by simpa using ht.symm.trans hs
    obtain ⟨hdisk, hsave⟩ := hbt.final hr hp hover
    exact ⟨rfl, hdisk.trans hc.symm, hsave⟩

/-- A file of an image does the same to the disk in the boot loader, where it is received in
order, and in `restore`. If the `options` file does not give a length of the bitmap, the
sector after the file is the same too. -/
theorem boot_restore_refines {C : Codec} (hC : C.Correct) {E : GetEnv} (hE : Codec.Correct ⟨E.decoder, C.deflate⟩)
    (hinit : E.init 0 = E.decoder.init) (io : Nat → Outcome) (options : Option (List Byte)) {info : List Byte}
    (hinfo : info ∈ imagerInfos) (par : PARAMS) (src : Device) {i : Nat} {calls : List DeflateCall}
    (hcalls : (compressVolume io options info par src).files[i]? = some calls) {slice : List Byte}
    (hslice : (slicesOf par.bitmap)[i]? = some slice) (hsect : E.inSect < 2 ^ 32) (htotal : E.total < 2 ^ 32)
    (hlarge : ∀ g ∈ setBits slice, E.inSect + g < E.total) (ginfo : ImageInfo) (alloc : List Byte)
    {buffer : List Byte} (hbuf : buffer.length = OUTBUFF) {st : RestoreState} (hst : st.buffer.length = TOTALLG)
    (hpos : st.cp.dev.pos = 512 * E.inSect) {fuel : Nat}
    (hfuel : (C.deflate calls).length + (streamInput calls).length < fuel) {evs : List Event}
    (hserved : ∀ pre e post t, evs = pre ++ e :: post →
      E.run (E.start st.cp.dev.content ginfo alloc buffer) pre = some (.running t) →
        Served (C.deflate calls) t e) :
    ∃ r, restoreAttempt C.inflater allFull fuel (C.deflate calls) st = some (true, r) ∧
      (E.run (E.start st.cp.dev.content ginfo alloc buffer) evs).isSome ∧
      (transferBound (C.deflate calls) (streamInput calls) < deliveries evs →
        ∃ s, E.run (E.start st.cp.dev.content ginfo alloc buffer) evs = some (.returned 0 s)) ∧
      ∀ code s, E.run (E.start st.cp.dev.content ginfo alloc buffer) evs = some (.returned code s) →
        code = 0 ∧ s.disk = r.cp.dev.content ∧
        (¬ alloctablelgKey <:+: filestring options i →
          r.cp.dev.pos = 512 * (E.inSect + 8 * slice.length) ∧
          s.saveSect = (r.cp.dev.pos / 512) % 2 ^ 32) := by
  obtain ⟨relZ, hZ, hdefZ⟩ := hC.follows
  obtain ⟨rel, hE, hdef⟩ := hE.follows
  obtain ⟨parts, hdata, hslices, hlayout, -⟩ := compressVolume_layout io options hinfo par src
  obtain ⟨p, hp, hfile⟩ : ∃ p, parts[i]? = some p ∧ FileData calls p := by
    obtain ⟨hi, hget⟩ := List.getElem?_eq_some_iff.mp hcalls
    have hi' : i < parts.length := hdata.length_eq ▸ hi
    refine ⟨parts[i], List.getElem?_eq_getElem hi', ?_⟩
    rw [← hget]
    exact (List.forall₂_iff_get.mp hdata).2 i hi hi'
  have hps : p.slice = slice := by
    rw [← hslices, List.getElem?_map, hp, Option.map_some, Option.some.injEq] at hslice
    exact hslice
  obtain ⟨hshape, hheader⟩ := hlayout i p hp
  have hrelZ := hdefZ calls hfile.finished
  have hrel := hdef calls hfile.finished
  rw [hfile.input] at hrelZ hrel hfuel ⊢
  obtain ⟨r, hatt, hrpos, hsome, hlive, hend⟩ := boot_restore_part hZ hE hshape hfile.sectors
    ⟨hsect, htotal, by rw [hps]; exact hlarge⟩ hrelZ
      (by rw [hinit]; exact hrel) ginfo alloc hbuf hst hpos hfuel hserved
  refine ⟨r, hatt, hsome, hlive, fun code s hs => ?_⟩
  obtain ⟨hcode, hdisk, hsave⟩ := hend code s hs
  refine ⟨hcode, hdisk, fun hkey => ?_⟩
  have hnb : parts.length < 2 ^ 31 := by
    rw [← List.length_map (f := Part.slice), hslices, slicesOf, bitmapSlices_length]
    exact par.nb_lt
  have hstr := strstr_header hinfo par.nb_sect_lt hnb hkey hshape.slice_le
  rw [← hheader] at hstr
  have hval := val_alloctablelg (hshape.slice_le.trans_lt (by decide)) hstr
  have hlg : p.lg = p.slice.length := by
    rw [Part.lg, headerField, hstr]
    have hend : ∀ b ∈ (ascii "\n").head?, isDigit b = false := by simp [ascii, isDigit]
    simp [scanInt_decimal p.slice.length hend]
  rw [extent_eq hlg, hps] at hrpos
  refine ⟨hrpos, ?_⟩
  rw [hsave, hval, hrpos, hps]
  omega

/-! ### An image of one sector -/

def oneSector : PARAMS := ⟨[0x01], 1, by decide, by decide⟩

def oneSectorImage (options : Option (List Byte)) : Image :=
  compressVolume allFull options [] oneSector (openDevice (fun _ => 0x55))

def bootEnv : GetEnv := ⟨storedDecoder.inflater, fun _ => storedDecoder.init, 63, 1000⟩

def bootStart : GetState bootEnv.decoder.State :=
  bootEnv.start (fun _ => 0) ⟨false, false, 0, 0, 0⟩ [] (List.replicate OUTBUFF 0)

/-- `restore` with the device at the start of the partition. -/
def restoreStart : RestoreState := ⟨⟨0, 0, ⟨fun _ => 0, 512 * 63, []⟩, 0⟩, -1, freshMemory.buffer, freshMemory.bitmap⟩

theorem oneSectorImage_file (options : Option (List Byte)) :
    ∃ calls p, (oneSectorImage options).files = [calls] ∧ FileData calls p ∧ p.Shaped ∧
      p.slice = [0x01] ∧
      p.header = imageHeader (headerText (firststring 1 1 []) (filestring options 0) 1) [0x01] ∧
      (streamInput calls).length = 24576 ∧ (storedDeflate calls).length = 24587 := by
  obtain ⟨calls, p, hfiles, hfile, hshape, hslice, hheader, hlen⟩ :=
    compressVolume_single allFull options
    nil_mem_imagerInfos (openDevice (fun _ => 0x55))
      (by decide : slicesOf oneSector.bitmap = [[0x01]])
  rw [show setBits [0x01] = [0] by decide] at hlen
  replace hlen : (streamInput calls).length = 24576 := hlen
  exact ⟨calls, p, hfiles, hfile, hshape, hslice, hheader, hlen,
    by rw [storedDeflate_length (by omega), hlen]⟩

/-- Packets that are served in order bring a whole file of one block. -/
theorem stored_transfer {calls : List DeflateCall} {p : Part} (hfile : FileData calls p)
    (hshape : p.Shaped) (hlen : (storedDeflate calls).length ≤ 65546) (hfit : Fits bootEnv p)
    (ginfo : ImageInfo) :
    ∃ evs, (∀ pre e post t, evs = pre ++ e :: post →
        bootEnv.run (bootEnv.start (fun _ => 0) ginfo [] (List.replicate OUTBUFF 0)) pre =
          some (.running t) →
        Served (storedDeflate calls) t e) ∧
      ∃ s, bootEnv.run (bootEnv.start (fun _ => 0) ginfo [] (List.replicate OUTBUFF 0)) evs =
        some (.returned 0 s) := by
  obtain ⟨rel, hE, hdef⟩ := storedCodec_correct.follows
  have hrel := hdef calls hfile.finished
  rw [hfile.input] at hrel
  have hboot : Boot bootEnv rel (storedDeflate calls) p (fun _ => 0)
      (bootEnv.start (fun _ => 0) ginfo [] (List.replicate OUTBUFF 0)) :=
    Boot.start hE hshape hfile.sectors hrel _ List.length_replicate
  refine hboot.completes hE (fun _ => (by decide : 0 < OUTBUFF)) hshape hfile.sectors hfit ?_
  have hle : (storedDeflate calls).length / TFTPBLOCK ≤ 65546 / TFTPBLOCK := Nat.div_le_div_right hlen
  have hblocks : 65546 / TFTPBLOCK = 45 := by decide
  omega

/-- Both leave the sector after the 56 sectors of the bitmap. -/
theorem boot_restore_smallImage :
    ∃ calls evs s r, smallImage.files[0]? = some calls ∧
      bootEnv.run bootStart evs = some (.returned 0 s) ∧
      restoreAttempt storedCodec.inflater allFull 100364 (storedDeflate calls) restoreStart = some (true, r) ∧
      s.disk = r.cp.dev.content ∧ s.saveSect = 119 := by
  obtain ⟨calls, p, hfiles, hfile, hshape, hslice, hin, hlen⟩ := smallImage_file
  have hcalls : smallImage.files[0]? = some calls := by rw [hfiles]; rfl
  have hlarge : ∀ g ∈ setBits gappedSectors.bitmap, 63 + g < 1000 := by
    rw [gappedSectors_setBits]
    decide
  obtain ⟨evs, hserved, s, hs⟩ := stored_transfer hfile hshape (by omega)
    ⟨by decide, by decide, by rw [hslice]; exact hlarge⟩ ⟨false, false, 0, 0, 0⟩
  have hbuf : restoreStart.buffer.length = TOTALLG := freshMemory.buffer_length
  obtain ⟨r, hr, -, -, hend⟩ := boot_restore_refines storedCodec_correct
    (E := bootEnv) storedCodec_correct rfl allFull
    none nil_mem_imagerInfos gappedSectors (openDevice (fun _ => 0x55)) hcalls
    (by decide : (slicesOf gappedSectors.bitmap)[0]? = some gappedSectors.bitmap) (by decide)
    (by decide) hlarge ⟨false, false, 0, 0, 0⟩ [] List.length_replicate
    hbuf rfl (show (storedDeflate calls).length + (streamInput calls).length <
      100364 by omega) hserved
  obtain ⟨-, hdisk, hsave⟩ := hend 0 s hs
  obtain ⟨hpos, hsave⟩ := hsave (fun h => absurd (List.infix_nil.mp h) (by decide))
  refine ⟨calls, evs, s, r, hcalls, hs, hr, hdisk, ?_⟩
  rw [hsave, hpos]
  decide

/-- A line of the `options` file that gives 0 as the length of the bitmap. -/
def zeroLength : List Byte := ascii "L000:ALLOCTABLELG=0\n"

theorem zeroLength_header : ∃ rest, headerText (firststring 1 1 []) (filestring (some zeroLength) 0) 1 =
    ascii "SECTORS=1|BLOCKS=1|" ++ (alloctablelgKey ++ (ascii "0|" ++ rest)) := by
  have hfile : filestring (some zeroLength) 0 = ascii "ALLOCTABLELG=0|" := by decide
  rw [headerText, firststring, hfile, decimal_lt_ten (by decide)]
  exact ⟨ascii "ALLOCTABLELG=1\n", by decide⟩

theorem zeroLength_strstr {p : Part}
    (h : p.header = imageHeader (headerText (firststring 1 1 []) (filestring (some zeroLength) 0) 1) [0x01]) :
    ∃ rest, strstr alloctablelgKey (cstr p.header) = some (alloctablelgKey ++ (ascii "0|" ++ rest)) := by
  obtain ⟨rest, htext⟩ := zeroLength_header
  refine ⟨rest, ?_⟩
  have hkey : alloctablelgKey = ascii "ALLOCTABLELG" ++ [61] := rfl
  rw [h, cstr_imageHeader (headerText_zero_not_mem (firststring_zero_not_mem (by decide) 1 1)
    (filestring_zero_not_mem _ _) 1) (headerText_length_lt
    (firststring_length_le (by decide) (by decide) (by decide))
    (filestring_length_le _ _) (by decide)), htext, hkey]
  exact strstr_append (by decide) (by rw [← hkey, ← strstr_eq_none_iff (by decide)]; decide)

theorem zeroLength_lg {p : Part}
    (h : p.header = imageHeader (headerText (firststring 1 1 [])
      (filestring (some zeroLength) 0) 1) [0x01]) :
    p.lg = 0 := by
  obtain ⟨rest, hstr⟩ := zeroLength_strstr h
  rw [Part.lg, headerField, hstr, Option.bind_some, List.drop_left]
  rfl

theorem oneSector_items {p : Part} (hp : p.Sectors) (hslice : p.slice = [0x01]) :
    ∃ x, p.items = [(0, x)] := by
  obtain ⟨x, hx⟩ := List.length_eq_one_iff.mp
    (by rw [hp.secs_count, hslice]; decide : p.secs.length = 1)
  refine ⟨x, ?_⟩
  rw [Part.items, hslice, hx]
  rfl

/-- With that line `restore` leaves the device behind the last sector it has written, and the
boot loader goes back to the first one. -/
theorem endsect_differs_with_options :
    ∃ calls evs s r, (oneSectorImage (some zeroLength)).files[0]? = some calls ∧
      (∀ pre e post t, evs = pre ++ e :: post → bootEnv.run bootStart pre = some (.running t) →
        Served (storedDeflate calls) t e) ∧
      bootEnv.run bootStart evs = some (.returned 0 s) ∧
      restoreAttempt storedCodec.inflater allFull 49164 (storedDeflate calls) restoreStart = some (true, r) ∧
      r.cp.dev.pos = 512 * 64 ∧ s.saveSect = 63 := by
  obtain ⟨calls, p, hfiles, hfile, hshape, hslice, hheader, hin, hlen⟩ :=
    oneSectorImage_file (some zeroLength)
  have hcalls : (oneSectorImage (some zeroLength)).files[0]? = some calls := by rw [hfiles]; rfl
  have hfit : Fits bootEnv p := ⟨by decide, by decide, by rw [hslice]; decide⟩
  obtain ⟨evs, hserved, s, hs⟩ := stored_transfer hfile hshape (by omega) hfit ⟨false, false, 0, 0, 0⟩
  obtain ⟨rel, hE, hdef⟩ := storedCodec_correct.follows
  have hrel := hdef calls hfile.finished
  rw [hfile.input] at hrel
  have hbuf : restoreStart.buffer.length = TOTALLG := freshMemory.buffer_length
  obtain ⟨r, hr, hpos, -, -, hend⟩ := boot_restore_part
    (E := bootEnv) hE hE hshape hfile.sectors hfit hrel hrel
    ⟨false, false, 0, 0, 0⟩ [] List.length_replicate
    hbuf rfl (show (storedDeflate calls).length + p.output.length <
      49164 by rw [← hfile.input]; omega) hserved
  obtain ⟨-, -, hsave⟩ := hend 0 s hs
  obtain ⟨rest, hstr⟩ := zeroLength_strstr hheader
  have hval : val "ALLOCTABLELG" p.header = 0 := by
    have hkey : ascii "ALLOCTABLELG" ++ ascii "=" = alloctablelgKey := rfl
    have hlen : "ALLOCTABLELG".length + 1 = alloctablelgKey.length := rfl
    rw [val, fieldText, hkey, hstr, Option.map_some, hlen, List.drop_left]
    rfl
  have hext : p.extent = 1 := by
    obtain ⟨x, hitems⟩ := oneSector_items hfile.sectors hslice
    rw [Part.extent, zeroLength_lg hheader, if_neg (by simp), hitems]
    rfl
  refine ⟨calls, evs, s, r, hcalls, hserved, hs, hr, ?_, ?_⟩
  · rw [hpos, hext]
    rfl
  · rw [hsave, hval]
    rfl

end PulseImaging
