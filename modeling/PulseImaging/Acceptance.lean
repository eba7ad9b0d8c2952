import PulseImaging.Restore
import PulseImaging.Decompress
import PulseImaging.StoredStream

/-! When a file is accepted. The code that ended the loop is overwritten by that of a
last `inflate(Z_FINISH)`, of which only the sign is tested. -/

namespace PulseImaging

section Codes

variable {τ : Type} {Z : Inflater} {K : Sink τ} {fuel : Nat} {s s' : Unpack Z.State τ} {ret : ZRet}

theorem Unpack.full_input {σ : Type} {K : Sink τ} {s s' : Unpack σ τ} (h : s.full K = some s') :
    s'.z = s.z ∧ s'.inp = s.inp ∧ s'.rem = s.rem ∧ s'.outPos = 0 := by
  obtain ⟨c, -, rfl⟩ := Option.map_eq_some_iff.mp h
  exact ⟨rfl, rfl, rfl, rfl⟩

theorem loop_preserves {I : Unpack Z.State τ → Prop}
    (hstep : ∀ s ret s', I s → s.turn Z K = some (ret, s') → I s') (hs : I s)
    (h : Unpack.loop Z K fuel s = some (ret, s')) : I s' := by
  induction fuel generalizing s with
  | zero => simp [Unpack.loop] at h
  | succ fuel ih =>
    rw [Unpack.loop] at h
    obtain ⟨⟨r, t⟩, hturn, hrest⟩ := Option.bind_eq_some_iff.mp h
    have ht := hstep s r t hs hturn
    dsimp only at hrest
    split at hrest
    · exact ih ht hrest
    · obtain ⟨rfl, rfl⟩ := Prod.mk.inj (Option.some.inj hrest)
      exact ht

theorem loop_exit (h : Unpack.loop Z K fuel s = some (ret, s')) :
    ret ≠ .ok ∧ ∃ s₁ : Unpack Z.State τ, ret = (s₁.call Z).ret ∧ s' = s₁.advance (s₁.call Z) := by
  induction fuel generalizing s with
  | zero => simp [Unpack.loop] at h
  | succ fuel ih =>
    rw [Unpack.loop] at h
    obtain ⟨⟨r, t⟩, hturn, hrest⟩ := Option.bind_eq_some_iff.mp h
    dsimp only at hrest
    split at hrest
    · exact ih hrest
    · rename_i hr
      obtain ⟨rfl, rfl⟩ := Prod.mk.inj (Option.some.inj hrest)
      obtain ⟨hret, ⟨-, he⟩ | ⟨hok, -⟩ | ⟨hok, -⟩⟩ := turn_cases hturn
      · exact ⟨hr, s, hret, he⟩
      · exact absurd hok hr
      · exact absurd hok hr

/-- The sign of the last code: it is negative unless the stream ended or asked for a
dictionary. -/
theorem final_code (hZ : Z.Documented) (h : Unpack.loop Z K fuel s = some (ret, s'))
    (inp : List Byte) (n : Nat) :
    (ret = .streamEnd → (Z.inflate s'.z inp n .finish).ret = .streamEnd) ∧
    (ret = .needDict → (Z.inflate s'.z inp n .finish).ret = .needDict) ∧
    (ret ≠ .streamEnd → ret ≠ .needDict →
      (Z.inflate s'.z s'.inp (TOTALLG - s'.outPos) .finish).ret.code < 0) := by
  obtain ⟨hne, s₁, rfl, rfl⟩ := loop_exit h
  refine ⟨hZ.end_final _ _ _ _ _ _ _, hZ.dict_final _ _ _ _ _ _ _, fun he hd => ?_⟩
  by_cases hb : (s₁.call Z).ret = .bufError
  · have hagain := hZ.stuck_again _ _ _ hb
    rw [Nat.sub_sub] at hagain
    change (Z.inflate (s₁.call Z).state (s₁.inp.drop (s₁.call Z).consumed)
      (TOTALLG - (s₁.outPos + (s₁.call Z).out.length)) .finish).ret.code < 0
    rw [show (Z.inflate (s₁.call Z).state (s₁.inp.drop (s₁.call Z).consumed)
      (TOTALLG - (s₁.outPos + (s₁.call Z).out.length)) .finish).ret = .bufError from hagain]
    decide
  · refine hZ.error_final _ _ _ _ _ _ _ ?_ hb
    change (s₁.call Z).ret.code < 0
    cases hr : (s₁.call Z).ret with
    | ok => exact absurd hr hne
    | streamEnd => exact absurd hr he
    | needDict => exact absurd hr hd
    | streamError => decide
    | dataError => decide
    | memError => decide
    | bufError => exact absurd hr hb

/-! ### All output is passed on -/

/-- Output is in the buffer, has been passed to `flush`, or is the header. -/
structure Ledger {σ : Type} (s : Unpack σ τ) : Prop where
  buffer_length : s.buffer.length = TOTALLG
  outPos_le : s.outPos ≤ TOTALLG
  header : s.core.firstpass = true → s.passed = [] ∧ s.produced = s.buffer.take s.outPos
  data : s.core.firstpass = false →
    TOTALLG ≤ s.produced.length ∧ s.produced.drop TOTALLG = s.passed ++ s.buffer.take s.outPos

theorem Ledger.advance {σ : Type} {s : Unpack σ τ} {r : Inflated σ} (h : Ledger s)
    (hr : r.out.length ≤ TOTALLG - s.outPos) : Ledger (s.advance r) := by
  have hlen := h.buffer_length
  have hpos := h.outPos_le
  have htake : (overlay s.buffer s.outPos r.out).take (s.outPos + r.out.length) =
      s.buffer.take s.outPos ++ r.out := overlay_take_add (by omega)
  constructor
  · exact (overlay_length (by omega)).trans hlen
  · change s.outPos + r.out.length ≤ TOTALLG
    omega
  · intro hf
    obtain ⟨hp, hd⟩ := h.header hf
    refine ⟨hp, ?_⟩
    change s.produced ++ r.out = (overlay s.buffer s.outPos r.out).take (s.outPos + r.out.length)
    rw [htake, hd]
  · intro hf
    obtain ⟨hl, hd⟩ := h.data hf
    refine ⟨hl.trans (by simp [Unpack.advance]), ?_⟩
    change (s.produced ++ r.out).drop TOTALLG =
      s.passed ++ (overlay s.buffer s.outPos r.out).take (s.outPos + r.out.length)
    rw [htake, List.drop_append_of_le_length hl, hd, List.append_assoc]

theorem Ledger.full {σ : Type} {K : Sink τ} {s s' : Unpack σ τ} (h : Ledger s)
    (hpos : s.outPos = TOTALLG) (hs : s.full K = some s') : Ledger s' := by
  obtain ⟨c, hc, rfl⟩ := Option.map_eq_some_iff.mp hs
  have htake : s.buffer.take s.outPos = s.buffer :=
    List.take_of_length_le (by rw [h.buffer_length, hpos])
  have hfirst : c.firstpass = false := by
    simp only [Core.block] at hc
    split at hc
    · rw [← Option.some.inj hc]
      rfl
    · obtain ⟨t, -, rfl⟩ := Option.map_eq_some_iff.mp hc
      simpa using ‹¬ s.core.firstpass = true›
  refine ⟨h.buffer_length, Nat.zero_le _, fun hf => ?_, fun _ => ?_⟩
  · exact Bool.noConfusion (hf.symm.trans hfirst)
  · change TOTALLG ≤ s.produced.length ∧ s.produced.drop TOTALLG =
      (if s.core.firstpass then s.passed else s.passed ++ s.buffer) ++ s.buffer.take 0
    rw [List.take_zero, List.append_nil]
    cases hf : s.core.firstpass with
    | true =>
      obtain ⟨hp, hd⟩ := h.header hf
      rw [htake] at hd
      rw [if_pos rfl, hp, hd, h.buffer_length]
      exact ⟨Nat.le_refl _, List.drop_of_length_le h.buffer_length.le⟩
    | false =>
      obtain ⟨hl, hd⟩ := h.data hf
      rw [htake] at hd
      exact ⟨hl, by rw [if_neg (by simp), hd]⟩

theorem Ledger.refill {σ : Type} {s : Unpack σ τ} (h : Ledger s) : Ledger s.refill := by
  obtain ⟨hc, ho, hb, hp, -, hpa⟩ := s.refill_other
  constructor
  · rw [hb]; exact h.buffer_length
  · rw [ho]; exact h.outPos_le
  · rw [hc, hpa, hp, hb, ho]; exact h.header
  · rw [hc, hpa, hp, hb, ho]; exact h.data

theorem Ledger.turn (hZ : Z.Documented) (h : Ledger s) (ht : s.turn Z K = some (ret, s')) :
    Ledger s' := by
  have hadv : Ledger (s.advance (s.call Z)) := h.advance (hZ.out_le _ _ _ _)
  obtain ⟨-, ⟨-, rfl⟩ | ⟨-, -, rfl⟩ | ⟨-, hfull, u, hu, rfl⟩⟩ := turn_cases ht
  · exact hadv
  · exact hadv.refill
  · exact (hadv.full hfull hu).refill

theorem Ledger.ended {σ : Type} {K : Sink τ} {s s' : Unpack σ τ} (h : Ledger s)
    (hs : s.ended K = some s') :
    s'.passed = s'.produced.drop TOTALLG ∧ s'.z = s.z := by
  simp only [Unpack.ended] at hs
  obtain ⟨t, -, rfl⟩ := Option.map_eq_some_iff.mp hs
  cases hf : s.core.firstpass with
  | true =>
    obtain ⟨hp, hd⟩ := h.header hf
    have hlen : s.produced.length ≤ TOTALLG := by
      rw [hd, List.length_take]
      exact (Nat.min_le_left _ _).trans h.outPos_le
    simp [hp, List.drop_of_length_le hlen]
  | false =>
    obtain ⟨-, hd⟩ := h.data hf
    simp [hd]

theorem start_ledger {Z : Inflater} {file buffer bitmap : List Byte} {t : τ}
    (h : buffer.length = TOTALLG) :
    Ledger (Unpack.start Z file buffer bitmap t) :=
  ⟨h, Nat.zero_le _, fun _ => ⟨rfl, by simp [Unpack.start]⟩, fun hf => by simp [Unpack.start] at hf⟩

end Codes

/-! ### The codes do not depend on the program -/

/-- The first code other than `Z_OK` that the decoder gives for a file. -/
def Inflater.verdict (Z : Inflater) (fuel : Nat) (file : List Byte) : Option ZRet :=
  (Unpack.loop Z testSink fuel (Unpack.start Z file [] [] ())).map Prod.fst

section Verdict

variable {τ : Type} {Z : Inflater} {K : Sink τ} {fuel : Nat} {s s' : Unpack Z.State τ} {t t' : Unpack Z.State Unit}
  {ret : ZRet}

structure SameInput {σ τ υ : Type} (s : Unpack σ τ) (t : Unpack σ υ) : Prop where
  z : s.z = t.z
  inp : s.inp = t.inp
  rem : s.rem = t.rem
  outPos : s.outPos = t.outPos

theorem SameInput.advance (h : SameInput s t) : s.call Z = t.call Z ∧
    SameInput (s.advance (s.call Z)) (t.advance (t.call Z)) := by
  have hcall : s.call Z = t.call Z := by
    rw [Unpack.call, Unpack.call, h.z, h.inp, h.outPos]
  refine ⟨hcall, ?_⟩
  rw [hcall]
  exact ⟨rfl, by simp [Unpack.advance, h.inp], h.rem, by simp [Unpack.advance, h.outPos]⟩

theorem SameInput.refill {σ τ υ : Type} {s : Unpack σ τ} {t : Unpack σ υ} (h : SameInput s t) :
    SameInput s.refill t.refill := by
  obtain ⟨-, hos, -, -, hzs, -⟩ := s.refill_other
  obtain ⟨-, hot, -, -, hzt, -⟩ := t.refill_other
  refine ⟨hzs.trans (h.z.trans hzt.symm), ?_, ?_, hos.trans (h.outPos.trans hot.symm)⟩
  · by_cases hi : t.inp = [] <;> simp [Unpack.refill, h.inp, h.rem, hi]
  · by_cases hi : t.inp = [] <;> simp [Unpack.refill, h.inp, h.rem, hi]

theorem testSink_full {σ : Type} (t : Unpack σ Unit) : ∃ u, t.full testSink = some u := by
  cases hf : t.core.firstpass <;> simp [Unpack.full, Core.block, hf, testSink]

theorem SameInput.turn (h : SameInput s t) (hs : s.turn Z K = some (ret, s')) :
    ∃ t', t.turn Z testSink = some (ret, t') ∧ SameInput s' t' := by
  obtain ⟨hcall, hadv⟩ := h.advance
  obtain ⟨hret, hcases⟩ := turn_cases hs
  rw [hcall] at hret
  rcases hcases with ⟨hne, rfl⟩ | ⟨hok, hroom, rfl⟩ | ⟨hok, hfull, u, hu, rfl⟩
  · exact ⟨_, by rw [turn_of_ne (by rwa [← hret]), ← hret], hadv⟩
  · rw [hok] at hret ⊢
    exact ⟨_, turn_of_room hret.symm (by rwa [← hadv.outPos]), hadv.refill⟩
  · rw [hok] at hret ⊢
    obtain ⟨v, hv⟩ := testSink_full (t.advance (t.call Z))
    obtain ⟨huz, hui, hur, huo⟩ := Unpack.full_input hu
    obtain ⟨hvz, hvi, hvr, hvo⟩ := Unpack.full_input hv
    have hsame : SameInput u v := ⟨by rw [huz, hvz, hadv.z], by rw [hui, hvi, hadv.inp],
      by rw [hur, hvr, hadv.rem], by rw [huo, hvo]⟩
    exact ⟨_, turn_of_full hret.symm (by rwa [← hadv.outPos]) hv, hsame.refill⟩

theorem loop_verdict (h : SameInput s t) (hs : Unpack.loop Z K fuel s = some (ret, s')) :
    (Unpack.loop Z testSink fuel t).map Prod.fst = some ret := by
  induction fuel generalizing s t with
  | zero => simp [Unpack.loop] at hs
  | succ fuel ih =>
    rw [Unpack.loop] at hs ⊢
    obtain ⟨⟨r, s₁⟩, hturn, hrest⟩ := Option.bind_eq_some_iff.mp hs
    obtain ⟨t₁, ht₁, hsame⟩ := h.turn hturn
    rw [ht₁, Option.bind_some]
    dsimp only at hrest ⊢
    split
    · rename_i hok
      rw [if_pos hok] at hrest
      exact ih hsame hrest
    · rename_i hok
      rw [if_neg hok] at hrest
      exact congrArg some (congrArg Prod.fst (Option.some.inj hrest))

/-- States that lead to `Z_NEED_DICT` are fresh. -/
theorem dict_fresh {fresh : Z.State → Prop}
    (hfresh : ∀ s inp n fl, (fresh (Z.inflate s inp n fl).state → fresh s ∧
      (Z.inflate s inp n fl).out = []) ∧ ((Z.inflate s inp n fl).ret = .needDict →
      fresh (Z.inflate s inp n fl).state))
    (h : Unpack.loop Z testSink fuel t = some (.needDict, t')) : fresh t.z := by
  induction fuel generalizing t with
  | zero => simp [Unpack.loop] at h
  | succ fuel ih =>
    rw [Unpack.loop] at h
    obtain ⟨⟨r, t₁⟩, hturn, hrest⟩ := Option.bind_eq_some_iff.mp h
    obtain ⟨hret, hcases⟩ := turn_cases hturn
    have hback : fresh (t.call Z).state → fresh t.z := fun hf => ((hfresh _ _ _ _).1 hf).1
    dsimp only at hrest
    rcases hcases with ⟨hne, rfl⟩ | ⟨hok, -, rfl⟩ | ⟨hok, -, u, hu, rfl⟩
    · rw [if_neg hne] at hrest
      have hdict : (t.call Z).ret = .needDict :=
        hret.symm.trans (congrArg Prod.fst (Option.some.inj hrest))
      exact hback ((hfresh _ _ _ _).2 hdict)
    · rw [if_pos hok] at hrest
      have hf := ih hrest
      rw [(Unpack.refill_other _).2.2.2.2.1] at hf
      exact hback hf
    · rw [if_pos hok] at hrest
      have hf := ih hrest
      rw [(Unpack.refill_other _).2.2.2.2.1, (Unpack.full_input hu).1] at hf
      exact hback hf

/-- A request for a dictionary reaches every program: nothing has been written before. -/
theorem dict_loop (hZ : Z.Documented) (hsame : SameInput s t) (hroom : s.outPos < TOTALLG)
    (h : Unpack.loop Z testSink fuel t = some (.needDict, t')) :
    ∃ s', Unpack.loop Z K fuel s = some (.needDict, s') := by
  obtain ⟨fresh, hfresh⟩ := hZ.dict_early
  induction fuel generalizing s t with
  | zero => simp [Unpack.loop] at h
  | succ fuel ih =>
    rw [Unpack.loop] at h
    obtain ⟨⟨r, t₁⟩, hturn, hrest⟩ := Option.bind_eq_some_iff.mp h
    obtain ⟨hcall, hadv⟩ := hsame.advance
    obtain ⟨hret, hcases⟩ := turn_cases hturn
    dsimp only at hrest
    rcases hcases with ⟨hne, rfl⟩ | ⟨hok, hroom', rfl⟩ | ⟨hok, hfull, u, hu, rfl⟩
    · rw [if_neg hne] at hrest
      have hdict : (s.call Z).ret = .needDict := by
        rw [hcall]
        exact hret.symm.trans (congrArg Prod.fst (Option.some.inj hrest))
      refine ⟨s.advance (s.call Z), ?_⟩
      rw [Unpack.loop, turn_of_ne (by rw [hdict]; simp), hdict]
      rfl
    · rw [if_pos hok] at hrest
      have hpos : (s.advance (s.call Z)).outPos ≠ TOTALLG := by rwa [hadv.outPos]
      have hlt : (s.advance (s.call Z)).refill.outPos < TOTALLG := by
        rw [(Unpack.refill_other _).2.1]
        have : (s.call Z).out.length ≤ TOTALLG - s.outPos := hZ.out_le _ _ _ _
        simp only [Unpack.advance] at hpos ⊢
        omega
      obtain ⟨s', hs'⟩ := ih hadv.refill hlt hrest
      refine ⟨s', ?_⟩
      rw [Unpack.loop, turn_of_room (by rw [hcall, ← hret, hok]) hpos]
      exact hs'
    · rw [if_pos hok] at hrest
      have hf := dict_fresh hfresh hrest
      rw [(Unpack.refill_other _).2.2.2.2.1, (Unpack.full_input hu).1] at hf
      have hout : (t.call Z).out = [] := ((hfresh _ _ _ _).1 hf).2
      have hpos : t.outPos + (t.call Z).out.length = TOTALLG := hfull
      rw [hout, List.length_nil, Nat.add_zero, ← hsame.outPos] at hpos
      omega

theorem start_same {σ : Type} {Z : Inflater} (file buffer bitmap : List Byte) (t : σ) :
    SameInput (Unpack.start Z file buffer bitmap t) (Unpack.start Z file [] [] ()) :=
      ⟨rfl, rfl, rfl, rfl⟩

end Verdict

/-! ### The three programs -/

/-- The stream came to its end and all of its data has been passed to `flush`. -/
def Pass.Complete {σ τ : Type} (p : Pass σ τ) : Prop :=
  p.exit = .streamEnd ∧ p.state.passed = p.state.produced.drop TOTALLG

/-- `restore` moves on to the next file only after a complete pass. -/
def RestoreAccepts (Z : Inflater) (io : Nat → Outcome) (fuel : Nat) (file : List Byte) (st : RestoreState) : Prop :=
  ∀ st', restoreAttempt Z io fuel file st = some (true, st') →
    ∃ p, restorePass Z io fuel file st = some p ∧ p.Complete

/-- `decompress` writes `/tmp/offset` only after a complete pass. -/
def DecompressAccepts (Z : Inflater) (fuel : Nat) (file : List Byte) (offset : Nat) (st : DecompressState) : Prop :=
  ∀ written st', decompressAttempt Z fuel file offset st = some (some written, st') →
    ∃ p, decompressPass Z fuel file offset st = some p ∧ p.Complete

/-- `decompress-test` goes on to the next file only after the end of the stream. -/
def TestAccepts (Z : Inflater) (fuel : Nat) (file : List Byte) (b : Buffers) : Prop :=
  ∀ b', decompressTestFile Z fuel file b = some (true, b') →
    ∃ p, testPass Z fuel file b = some p ∧ p.exit = .streamEnd

section Programs

variable {τ : Type} {Z : Inflater} {K : Sink τ} {fuel : Nat} {file buffer bitmap : List Byte} {t : τ}

theorem pass_accepted {p : Pass Z.State τ} (hZ : Z.Documented) (hbuf : buffer.length = TOTALLG)
    (hv : Z.verdict fuel file ≠ some .needDict)
    (hp : Unpack.pass Z K fuel (Unpack.start Z file buffer bitmap t) = some p)
    (ha : ¬ p.final.code < 0) :
    p.Complete := by
  obtain ⟨⟨ret, s⟩, hloop, hrest⟩ := Option.bind_eq_some_iff.mp hp
  dsimp only at hrest
  obtain ⟨u, hu, rfl⟩ := Option.map_eq_some_iff.mp hrest
  have hret : ret ≠ .needDict := by
    intro hd
    exact hv ((loop_verdict (start_same file buffer bitmap t) hloop).trans (congrArg some hd))
  by_cases he : ret = .streamEnd
  · rw [if_pos he] at hu
    have hledger : Ledger s := loop_preserves (fun _ _ _ => Ledger.turn hZ) (start_ledger hbuf) hloop
    exact ⟨he, (hledger.ended hu).1⟩
  · rw [if_neg he] at hu
    rw [← Option.some.inj hu] at ha
    exact absurd ((final_code hZ hloop [] 0).2.2 he hret) ha

/-- A file that asks for a dictionary is accepted. -/
theorem pass_dict (hZ : Z.Documented) (hv : Z.verdict fuel file = some .needDict) :
    ∃ p, Unpack.pass Z K fuel (Unpack.start Z file buffer bitmap t) = some p ∧ ¬ p.final.code < 0 ∧
      p.exit = .needDict := by
  obtain ⟨⟨ret, t'⟩, hloop, rfl⟩ := Option.map_eq_some_iff.mp hv
  obtain ⟨s', hs'⟩ := dict_loop (K := K) hZ (start_same file buffer bitmap t) TOTALLG_pos hloop
  refine ⟨⟨.needDict, (Z.inflate s'.z s'.inp (TOTALLG - s'.outPos) .finish).ret, s'⟩, ?_, ?_, rfl⟩
  · rw [Unpack.pass, hs']
    rfl
  · rw [(final_code hZ hs' _ _).2.1 rfl]
    change ¬ ZRet.needDict.code < 0
    decide

end Programs

theorem restoreAccepts_iff {Z : Inflater} (hZ : Z.Documented) (io : Nat → Outcome) (fuel : Nat) (file : List Byte)
    {st : RestoreState} (hbuf : st.buffer.length = TOTALLG) :
    RestoreAccepts Z io fuel file st ↔ Z.verdict fuel file ≠ some .needDict := by
  constructor
  · intro h hv
    obtain ⟨p, hp, hcode, hexit⟩ : ∃ p, restorePass Z io fuel file st = some p ∧ ¬ p.final.code < 0 ∧
        p.exit = .needDict := pass_dict hZ hv
    obtain ⟨q, hq, hc, -⟩ := h _ (by simp only [restoreAttempt, hp, Option.map_some, if_neg hcode]; rfl)
    rw [hp, Option.some.injEq] at hq
    rw [← hq, hexit] at hc
    exact ZRet.noConfusion hc
  · intro hv st' hst
    obtain ⟨p, hp, he⟩ := Option.map_eq_some_iff.mp hst
    refine ⟨p, hp, pass_accepted hZ hbuf hv hp (fun hneg => ?_)⟩
    simp [hneg] at he

theorem decompressAccepts_iff {Z : Inflater} (hZ : Z.Documented) (fuel : Nat) (file : List Byte)
    (offset : Nat) {st : DecompressState} (hbuf : st.buffer.length = TOTALLG) :
    DecompressAccepts Z fuel file offset st ↔ Z.verdict fuel file ≠ some .needDict := by
  constructor
  · intro h hv
    obtain ⟨p, hp, hcode, hexit⟩ : ∃ p, decompressPass Z fuel file offset st = some p ∧
        ¬ p.final.code < 0 ∧ p.exit = .needDict := pass_dict hZ hv
    obtain ⟨q, hq, hc, -⟩ := h _ _ (by
      simp only [decompressAttempt, hp, Option.map_some, if_neg hcode]; rfl)
    rw [hp, Option.some.injEq] at hq
    rw [← hq, hexit] at hc
    exact ZRet.noConfusion hc
  · intro hv written st' hst
    obtain ⟨p, hp, he⟩ := Option.map_eq_some_iff.mp hst
    refine ⟨p, hp, pass_accepted hZ hbuf hv hp (fun hneg => ?_)⟩
    simp [hneg] at he

theorem testAccepts_iff {Z : Inflater} (hZ : Z.Documented) (fuel : Nat) (file : List Byte)
    {b : Buffers} (hbuf : b.buffer.length = TOTALLG) :
    TestAccepts Z fuel file b ↔ Z.verdict fuel file ≠ some .needDict := by
  constructor
  · intro h hv
    obtain ⟨p, hp, hcode, hexit⟩ : ∃ p, testPass Z fuel file b = some p ∧ ¬ p.final.code < 0 ∧
        p.exit = .needDict := pass_dict hZ hv
    obtain ⟨q, hq, hc⟩ := h _ (by
      simp only [decompressTestFile, hp, Option.map_some, hcode, not_false_eq_true, decide_true]; rfl)
    rw [hp, Option.some.injEq] at hq
    rw [← hq, hexit] at hc
    exact ZRet.noConfusion hc
  · intro hv b' hb
    obtain ⟨p, hp, he⟩ := Option.map_eq_some_iff.mp hb
    refine ⟨p, hp, (pass_accepted hZ hbuf hv hp (fun hneg => ?_)).1⟩
    simp [hneg] at he

/-- Each program accepts complete files only, exactly for the files whose stream does
not ask for a preset dictionary. -/
theorem accepted_files_complete {Z : Inflater} (hZ : Z.Documented) (io : Nat → Outcome) (fuel : Nat)
    (file : List Byte) (offset : Nat) (st : RestoreState) (hst : st.buffer.length = TOTALLG)
    (ds : DecompressState) (hds : ds.buffer.length = TOTALLG) (b : Buffers) (hb : b.buffer.length = TOTALLG) :
    (RestoreAccepts Z io fuel file st ↔ Z.verdict fuel file ≠ some .needDict) ∧
      (DecompressAccepts Z fuel file offset ds ↔ Z.verdict fuel file ≠ some .needDict) ∧
      (TestAccepts Z fuel file b ↔ Z.verdict fuel file ≠ some .needDict) :=
  ⟨restoreAccepts_iff hZ io fuel file hst, decompressAccepts_iff hZ fuel file offset hds,
    testAccepts_iff hZ fuel file hb⟩

/-- The state in which the first file of a partition is tried. -/
def firstState : RestoreState :=
  ⟨⟨0, 0, openDevice (fun _ => 0), 0⟩, -1, freshMemory.buffer, freshMemory.bitmap⟩

/-- A file cut after two bytes is not accepted. -/
theorem accepted_files_cut_file :
    RestoreAccepts storedDecoder.inflater allFull 4 [0x78, 0x01] firstState ∧
      DecompressAccepts storedDecoder.inflater 4 [0x78, 0x01] 0 ⟨none, none, freshMemory.buffer, []⟩ ∧
      TestAccepts storedDecoder.inflater 4 [0x78, 0x01] ⟨freshMemory.buffer, []⟩ := by
  have hv : storedDecoder.inflater.verdict 4 [0x78, 0x01] ≠ some .needDict := by decide
  obtain ⟨hr, hd, ht⟩ := accepted_files_complete storedDecoder.documented allFull 4 [0x78,
    0x01] 0 firstState
    freshMemory.buffer_length ⟨none, none, freshMemory.buffer, []⟩ freshMemory.buffer_length
    ⟨freshMemory.buffer, []⟩ freshMemory.buffer_length
  exact ⟨hr.mpr hv, hd.mpr hv, ht.mpr hv⟩

/-- A stream head that asks for a preset dictionary is accepted as a complete file. -/
theorem dictionary_file_accepted :
    ¬ RestoreAccepts storedDecoder.inflater allFull 4 [0x78, 0xBB, 0, 0, 0, 1] firstState ∧
      ¬ DecompressAccepts storedDecoder.inflater 4 [0x78, 0xBB, 0, 0, 0, 1] 0
        ⟨none, none, freshMemory.buffer, []⟩ ∧
      ¬ TestAccepts storedDecoder.inflater 4 [0x78, 0xBB, 0, 0, 0, 1] ⟨freshMemory.buffer, []⟩ := by
  have hv : storedDecoder.inflater.verdict 4 [0x78, 0xBB, 0, 0, 0, 1] = some .needDict := by decide
  have hZ := storedDecoder.documented
  refine ⟨?_, ?_, ?_⟩
  · rw [restoreAccepts_iff hZ _ _ _ freshMemory.buffer_length]
    exact fun h => h hv
  · rw [decompressAccepts_iff hZ _ _ _ freshMemory.buffer_length]
    exact fun h => h hv
  · rw [testAccepts_iff hZ _ _ freshMemory.buffer_length]
    exact fun h => h hv

end PulseImaging
