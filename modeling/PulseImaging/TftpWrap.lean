import PulseImaging.Retransmission

/-! Long files: on the wire the number of a block has 16 bits, and `tftpget` waits for the
one after `nextpacket`, which has more. Block 65536 is never accepted. -/

namespace PulseImaging

theorem blockData_length_le (file : List Byte) (n : Nat) : (blockData file n).length ≤ TFTPBLOCK := by
  rw [blockData_length, TFTPBLOCK]
  omega

theorem wireNumber_lt (n : Nat) : (n + 1) % 2 ^ 16 < 2 ^ 16 := Nat.mod_lt _ (Nat.two_pow_pos 16)

/-- Block `n + 1` of the file as the server sends it. -/
def wireBlock (file : List Byte) (n : Nat) : Datagram where
  op := 3
  block := (n + 1) % 2 ^ 16
  payload := blockData file n
  op_lt := dataOp_lt
  block_lt := wireNumber_lt n
  payload_le := blockData_length_le file n

/-- The blocks in order, each of them once; the last one is short. -/
def wireBlocks (file : List Byte) : List (Option Datagram) :=
  (List.range (file.length / 512 + 1)).map (fun n => some (wireBlock file n))

/-- The file as it is opened when every connection delivers it so. -/
def openWire (file : List Byte) (buffer : Int → Byte) : TftpFile :=
  grubOpen (fun _ => wireBlocks file) file.length buffer

/-- The file variables before window `w` is received. -/
def afterWindows (s : TftpFile) : Nat → TftpFile
  | 0 => s
  | w + 1 => (tftpget (afterWindows s w)).2

/-- Every block of window `w` has been accepted, and `basepos` is where the window starts. -/
structure WindowAccepted (file : List Byte) (w : Nat) (r : Int × TftpFile) : Prop where
  accepted : r.1 = ((min BUFFERSIZE (file.length - BUFFERSIZE * w) : Nat) : Int)
  basepos_eq : r.2.basepos = BUFFERSIZE * w
  buffer_eq : ∀ k < BUFFERSIZE, BUFFERSIZE * w + k < file.length → r.2.buffer k = file.getD (BUFFERSIZE * w + k) 0

section

variable {file : List Byte}

theorem wireBlock_eq {n : Nat} (h : n + 1 < 2 ^ 16) :
    (wireBlock file n).op = 3 ∧ (wireBlock file n).block = n + 1 ∧
      (wireBlock file n).payload = blockData file n :=
  ⟨rfl, Nat.mod_eq_of_lt h, rfl⟩

theorem window_start (w : Nat) :
    BUFFERSIZE * w = 512 * (60 * w) := by rw [BUFFERSIZE_blocks, Nat.mul_assoc]

/-! ### Up to 65535 blocks -/

theorem wireBlocks_inOrder (h : file.length < 512 * 65535) : InOrder file 0 (wireBlocks file) := by
  rw [wireBlocks, List.range_eq_range']
  exact inOrder_blocks (Nat.zero_add _) fun i hi => wireBlock_eq (by omega)

/-- The next window starts with the block behind those received. -/
theorem afterWindows_inOrder (h : file.length < 512 * 65535) (buffer : Int → Byte) {w : Nat}
    (hw : BUFFERSIZE * w ≤ file.length) :
    (afterWindows (openWire file buffer) w).nextpacket = 60 * w ∧
      (afterWindows (openWire file buffer) w).endoffile = false ∧
      InOrder file (60 * w) (afterWindows (openWire file buffer) w).inbox := by
  have hB := BUFFERSIZE_blocks
  rw [window_start] at hw
  induction w with
  | zero => exact ⟨rfl, rfl, wireBlocks_inOrder h⟩
  | succ w ih =>
    obtain ⟨hnext, hend, hin⟩ := ih (by omega)
    obtain ⟨-, hgot⟩ := tftpget_received hin (by omega) hnext hend
    obtain ⟨hnext', hin'⟩ := hgot.rest (by omega)
    have hend' := hgot.endoffile_eq
    rw [decide_eq_false (by omega)] at hend'
    exact ⟨hnext', hend', hin'⟩

theorem windows_accepted (h : file.length < 512 * 65535) (buffer : Int → Byte) {w : Nat}
    (hw : BUFFERSIZE * w ≤ file.length) :
    WindowAccepted file w (tftpget (afterWindows (openWire file buffer) w)) := by
  obtain ⟨hnext, hend, hin⟩ := afterWindows_inOrder h buffer hw
  obtain ⟨hr, hgot⟩ := tftpget_received hin (window_start w ▸ hw) hnext hend
  have hbase := hgot.basepos_eq
  have hbuffer := hgot.buffer_eq
  rw [← window_start] at hr hbase hbuffer
  exact ⟨hr, hbase, hbuffer⟩

theorem grubRead_whole (h : file.length < 512 * 65535) (buffer : Int → Byte) :
    ∃ s', grubRead (fun _ => wireBlocks file) 1 (-1) (openWire file buffer) =
      some ((file.length, file), s') := by
  have hopen : Window ⟨file, 0, Nat.zero_le _⟩ (openWire file buffer) :=
    window_open (wireBlocks_inOrder h) buffer
  have hsaved : ¬ (openWire file buffer).filepos < (openWire file buffer).savedpos :=
    Nat.not_lt_zero 0
  obtain ⟨s', hread, -⟩ := grubRead_step hopen (by dsimp only; omega) (-1) (fun hre => hsaved hre.2.1)
    (Or.inr (Nat.zero_le _)) (fun hlt => absurd hlt hsaved) 0
  refine ⟨s', hread.trans ?_⟩
  simp only [ArrayFile.read, ArrayFile.clip, List.drop_zero, Nat.sub_zero]
  rw [if_pos (Or.inl (by decide)), List.take_length]

/-! ### More than 65535 blocks -/

/-- Block 65536 comes with the number 0, which is neither the last number nor the next. -/
theorem wireBlocks_broken (h : 512 * 65535 ≤ file.length) :
    Broken file 65535 0 (wireBlocks file) := by
  obtain ⟨d, hd⟩ := Nat.exists_eq_add_of_le (show 65535 + 1 ≤ file.length / 512 + 1 by omega)
  have hwrong : Broken file 65535 65535 ((List.range' 65535 (1 + d)).map fun n => some
      (wireBlock file n)) := by
    rw [Nat.add_comm 1, List.range'_succ, List.map_cons]
    exact .wrongBlock h rfl (show (65535 + 1) % 2 ^ 16 ≠ 65535 by decide)
      (show (65535 + 1) % 2 ^ 16 ≠ 65535 + 1 by decide)
  rw [wireBlocks, List.range_eq_range', hd, Nat.add_assoc, ← List.range'_append_1, List.map_append,
    Nat.zero_add]
  exact broken_append rfl hwrong fun i hi => wireBlock_eq (by omega)

/-- Whole windows, as long as the numbers reach. -/
theorem afterWindows_broken (h : 512 * 65535 ≤ file.length) (buffer : Int → Byte) {w : Nat}
    (hw : w ≤ 1092) :
    (afterWindows (openWire file buffer) w).nextpacket = 60 * w ∧
      (afterWindows (openWire file buffer) w).endoffile = false ∧
      Broken file 65535 (60 * w) (afterWindows (openWire file buffer) w).inbox := by
  induction w with
  | zero => exact ⟨rfl, rfl, wireBlocks_broken h⟩
  | succ w ih =>
    obtain ⟨hnext, hend, hin⟩ := ih (by omega)
    rw [← hnext] at hin
    rcases tftpget_broken hin hend with ⟨-, -, hwhole⟩ | ⟨hlt, -⟩
    · have hnext' := hwhole.nextpacket_eq
      have hin' := hwhole.broken
      rw [hnext] at hnext' hin'
      exact ⟨hnext', hwhole.going, hin'⟩
    · omega

/-- The window with block 65536 is not received. -/
theorem last_window_refused (h : 512 * 65535 ≤ file.length) (buffer : Int → Byte) :
    (tftpget (afterWindows (openWire file buffer) 1092)).1 = -1 := by
  obtain ⟨hnext, hend, hin⟩ := afterWindows_broken h buffer (Nat.le_refl 1092)
  rw [← hnext] at hin
  rcases tftpget_broken hin hend with ⟨hle, -⟩ | ⟨-, hfail⟩
  · omega
  · exact hfail

theorem not_windows_accepted (h : 512 * 65535 ≤ file.length) (buffer : Int → Byte) :
    BUFFERSIZE * 1092 ≤ file.length ∧
      ¬ WindowAccepted file 1092 (tftpget (afterWindows (openWire file buffer) 1092)) := by
  refine ⟨by rw [window_start]; omega, fun hacc => ?_⟩
  have hr := hacc.accepted
  rw [last_window_refused h buffer] at hr
  omega

/-- The transfer is started again and again. -/
theorem grubRead_endless (h : 512 * 65535 ≤ file.length) (hlen : file.length ≤ MAXINT)
    (buffer : Int → Byte) (turns : Nat) :
    grubRead (fun _ => wireBlocks file) turns (-1) (openWire file buffer) = none := by
  have hmax : MAXINT < 2 ^ 31 := by decide
  have hbrings : brings 65535 = 33546240 := by decide
  have hclip : (ArrayFile.mk file 0 (Nat.zero_le _)).clip (-1) = file.length :=
    if_pos (Or.inl (by decide))
  rw [grubRead_eq (f := ⟨file, 0, Nat.zero_le _⟩) (by dsimp only; omega) rfl rfl, hclip]
  obtain ⟨extra, out, s', hrun, -⟩ := @tftpReadLoop_attempts file
    (fun _ => wireBlocks file) 0 file.length (by omega)
    (by omega) (Nat.zero_le _) turns (fun _ => 65535) 0 (Nat.zero_le _)
      (fun _ _ _ => wireBlocks_broken h)
    (fun _ _ _ => by omega) ⟨0, file.length, 0, 0, 0, true, 0, buffer, [], 0⟩ rfl rfl 0 0 []
  exact hrun

end

/-- Files are received, in windows and as a whole, exactly as long as the numbers do not wrap around. -/
theorem tftp_length_iff {file : List Byte} (hlen : file.length ≤ MAXINT) (buffer : Int → Byte) :
    ((∀ w, BUFFERSIZE * w ≤ file.length →
        WindowAccepted file w (tftpget (afterWindows (openWire file buffer) w))) ↔ file.length < 512 * 65535) ∧
    ((∃ turns s', grubRead (fun _ => wireBlocks file) turns (-1) (openWire file buffer) =
        some ((file.length, file), s')) ↔ file.length < 512 * 65535) := by
  refine ⟨⟨fun hall => ?_, fun h w hw => windows_accepted h buffer hw⟩,
    ⟨fun ⟨turns, s', hread⟩ => ?_, fun h => ⟨1, grubRead_whole h buffer⟩⟩⟩
  · by_contra hge
    obtain ⟨hle, hnot⟩ := not_windows_accepted (Nat.le_of_not_lt hge) buffer
    exact hnot (hall 1092 hle)
  · by_contra hge
    rw [grubRead_endless (Nat.le_of_not_lt hge) hlen buffer turns] at hread
    cases hread

/-- A file of one block and a byte. -/
theorem two_blocks_received :
    (∀ w, BUFFERSIZE * w ≤ (List.replicate 513 (0x55 : Byte)).length → WindowAccepted (List.replicate 513 0x55) w
        (tftpget (afterWindows (openWire (List.replicate 513 0x55) fun _ => 0) w))) ∧
      ∃ turns s', grubRead (fun _ => wireBlocks (List.replicate 513 0x55)) turns (-1)
        (openWire (List.replicate 513 0x55) fun _ => 0) =
          some (((List.replicate 513 (0x55 : Byte)).length, List.replicate 513 0x55), s') := by
  have hlen : (List.replicate 513 (0x55 : Byte)).length = 513 := List.length_replicate
  obtain ⟨hwindows, hwhole⟩ := @tftp_length_iff (List.replicate 513 0x55)
    (by rw [hlen]; decide) fun _ => 0
  exact ⟨hwindows.mpr (by rw [hlen]; decide), hwhole.mpr (by rw [hlen]; decide)⟩

/-- 65535 whole blocks are followed by an empty one. -/
theorem block_65536_refused :
    (List.replicate 33553920 (0 : Byte)).length ≤ MAXINT ∧
      ¬ ∀ w, BUFFERSIZE * w ≤ (List.replicate 33553920 (0 : Byte)).length →
        WindowAccepted (List.replicate 33553920 0) w
          (tftpget (afterWindows (openWire (List.replicate 33553920 0) fun _ => 0) w)) := by
  have hlen : (List.replicate 33553920 (0 : Byte)).length = 33553920 := List.length_replicate
  obtain ⟨hle, hnot⟩ := @not_windows_accepted (List.replicate 33553920 0) (by rw [hlen]) fun _ => 0
  exact ⟨by rw [hlen]; decide, fun hall => hnot (hall 1092 hle)⟩

end PulseImaging
