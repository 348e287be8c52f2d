import CopyPatch.CodeBuffer
import CopyPatch.Proofs.Blueprint.Patching

/-! Stitching. A call that fails may leave half-patched bytes behind the pieces of a code buffer,
but no later call sees them: judged by its code, a buffer is a byte string to which every successful
call appends what it makes in fresh memory. So the pieces follow one another without gaps, stay as
they were made, and a failed call leaves no trace. -/
namespace CopyPatch

namespace Piece

/-- The bytes of a piece. -/
def bytesIn (piece : Piece) (code : Bytes) : Bytes := (code.drop piece.offset).take piece.length

/-- Pieces that follow one another from `start` to `stop`. -/
def Tile : Nat → List Piece → Nat → Prop
  | start, [], stop => start = stop
  | start, piece :: rest, stop => piece.offset = start ∧ Tile (start + piece.length) rest stop

/-- The bytes of a piece stay as they are when code grows at its end. -/
theorem bytesIn_of_prefix {piece : Piece} {code longer : Bytes} (grown : code <+: longer)
    (inside : piece.offset + piece.length ≤ code.length) :
    piece.bytesIn longer = piece.bytesIn code := by
  obtain ⟨rest, rfl⟩ := grown
  have fits : piece.length ≤ (code.drop piece.offset).length := by
    rw [List.length_drop]
    omega
  rw [bytesIn, bytesIn, List.drop_append_of_le_length (by omega),
    List.take_append_of_le_length fits]

theorem bytesIn_append {piece : Piece} {code bytes : Bytes} (offset : piece.offset = code.length)
    (length : piece.length = bytes.length) : piece.bytesIn (code ++ bytes) = bytes := by
  rw [bytesIn, offset, length, List.drop_left, List.take_length]

end Piece

namespace CodeBuffer

/-- The values of a call, in packed order or by class. -/
inductive CallValues where
  | packed (values : List UInt64)
  | byClass (values : FixupValues)
  deriving DecidableEq, Repr

/-- A call on a buffer, with the thread-local base that is installed by then. -/
structure Call where
  blueprint : Blueprint
  values : CallValues
  threadLocalBase : Option Int32
  deriving DecidableEq, Repr

/-- The values of a call in packed order. -/
def Call.packed (call : Call) : Outcome PatchError (List UInt64) :=
  match call.values with
  | .packed values => .ok values
  | .byClass values => values.pack call.blueprint

def perform (buffer : CodeBuffer) (call : Call) : CodeBuffer × Outcome PatchError Piece :=
  match call.values with
  | .packed values => buffer.emitPacked call.threadLocalBase call.blueprint values
  | .byClass values => buffer.emit call.threadLocalBase call.blueprint values

/-- Make calls one after another, whether they succeed or not. -/
def run : CodeBuffer → List Call → CodeBuffer × List (Outcome PatchError Piece)
  | buffer, [] => (buffer, [])
  | buffer, call :: rest =>
    ((run (buffer.perform call).1 rest).1,
      (buffer.perform call).2 :: (run (buffer.perform call).1 rest).2)

/-- The pieces of the calls that succeeded, in the order of the calls. -/
def emitted (outcomes : List (Outcome PatchError Piece)) : List Piece :=
  outcomes.filterMap Except.toOption

/-- The address of the next piece. -/
def nextAddress (buffer : CodeBuffer) : UInt64 := buffer.base + UInt64.ofNat buffer.used

/-- What a call makes in fresh memory of `room` bytes at an address. -/
def Call.make (call : Call) (address : UInt64) (room : Nat) : Outcome PatchError Bytes :=
  call.packed >>= fun packed =>
    let copy := call.blueprint.specialize ⟨packed, address, call.threadLocalBase⟩
      (List.replicate room 0)
    copy.2.map copy.1.take

/-- The memory holds all pieces and stays inside the pages. -/
structure Sound (buffer : CodeBuffer) : Prop where
  used : buffer.used ≤ buffer.memory.length
  memory : buffer.memory.length ≤ buffer.capacity

theorem Sound.length_code {buffer : CodeBuffer} (sound : buffer.Sound) :
    buffer.code.length = buffer.used := by
  rw [code, List.length_take, Nat.min_eq_left sound.used]

theorem withCapacity_eq_ok {base : UInt64} {bytes : Nat} {buffer : CodeBuffer}
    (h : withCapacity base bytes = .ok buffer) :
    buffer.base = base ∧ buffer.used = 0 ∧ buffer.Sound := by
  obtain ⟨capacity, _, h⟩ := Outcome.bind_eq_ok.mp h
  split at h
  · cases h
    exact ⟨rfl, rfl, Nat.le_refl 0, Nat.zero_le capacity⟩
  · cases h

theorem Call.make_eq {call : Call} {packed : List UInt64} (h : call.packed = .ok packed)
    (address : UInt64) (room : Nat) :
    call.make address room =
      (call.blueprint.patch ⟨packed, address, call.threadLocalBase⟩ room).2.map fun _ =>
        (call.blueprint.patch ⟨packed, address, call.threadLocalBase⟩ room).1 := by
  rw [make, h]
  show Except.map _ (Blueprint.specialize _ _ _).2 = _
  rw [Blueprint.specialize_eq, List.length_replicate]
  cases done : (call.blueprint.patch ⟨packed, address, call.threadLocalBase⟩ room).2 with
  | error cause => rfl
  | ok written =>
    obtain ⟨_, whole, _⟩ := Blueprint.patch_eq_ok (Prod.ext rfl done)
    exact congrArg Except.ok (List.take_left' whole)

/-- What is made in fresh memory is the copy in any memory that has room for it. -/
theorem Call.make_eq_ok {call : Call} {address : UInt64} {room : Nat} {bytes : Bytes}
    (h : call.make address room = .ok bytes) :
    bytes.length = call.blueprint.code.length ∧ bytes.length ≤ room ∧
      ∃ packed, call.packed = .ok packed ∧ ∀ fresh : Bytes, bytes.length ≤ fresh.length →
        call.blueprint.specialize ⟨packed, address, call.threadLocalBase⟩ fresh =
          (bytes ++ fresh.drop bytes.length, .ok bytes.length) := by
  obtain ⟨packed, hpacked, _⟩ := Outcome.bind_eq_ok.mp h
  rw [make_eq hpacked] at h
  obtain ⟨written, done, rfl⟩ := Outcome.map_eq_ok.mp h
  obtain ⟨length, whole, fits, anywhere⟩ := Blueprint.patch_eq_ok (Prod.ext rfl done)
  rw [whole]
  refine ⟨length, fits, packed, hpacked, fun fresh enough => ?_⟩
  rw [Blueprint.specialize_eq, anywhere fresh.length enough, whole]

theorem perform_eq (buffer : CodeBuffer) (call : Call) :
    buffer.perform call = match call.packed with
      | .ok packed => buffer.emitPacked call.threadLocalBase call.blueprint packed
      | .error cause => (buffer, .error cause) := by
  unfold perform Call.packed
  split <;> rfl

theorem emitPacked_eq {buffer : CodeBuffer} {threadLocalBase : Option Int32} {b : Blueprint}
    {values : List UInt64} {written : Bytes} {done : Outcome PatchError Nat}
    (h : b.patch ⟨values, buffer.nextAddress, threadLocalBase⟩ buffer.remaining = (written, done)) :
    buffer.emitPacked threadLocalBase b values =
      ({ buffer with
          memory := buffer.memory.splice buffer.used written
          used := buffer.used + done.toOption.getD 0 },
        done.map (⟨buffer.used, buffer.nextAddress, ·⟩)) := by
  unfold nextAddress at h
  simp only [emitPacked, h]
  cases done <;> rfl

/-- A call never changes the code; one that succeeds appends what it makes in fresh memory. -/
theorem perform_cases {buffer : CodeBuffer} (sound : buffer.Sound) (call : Call) :
    (buffer.perform call).1.Sound ∧ (buffer.perform call).1.base = buffer.base ∧
      (buffer.perform call).1.capacity = buffer.capacity ∧
      ((∃ bytes, call.make buffer.nextAddress buffer.remaining = .ok bytes ∧
          (buffer.perform call).2 = .ok ⟨buffer.used, buffer.nextAddress, bytes.length⟩ ∧
          (buffer.perform call).1.used = buffer.used + bytes.length ∧
          (buffer.perform call).1.code = buffer.code ++ bytes) ∨
        ∃ cause, call.make buffer.nextAddress buffer.remaining = .error cause ∧
          (buffer.perform call).2 = .error cause ∧ (buffer.perform call).1.used = buffer.used ∧
          (buffer.perform call).1.code = buffer.code) := by
  rw [perform_eq]
  cases hpacked : call.packed with
  | error cause =>
    refine ⟨sound, rfl, rfl, Or.inr ⟨cause, ?_, rfl, rfl, rfl⟩⟩
    rw [Call.make, hpacked]
    rfl
  | ok packed =>
    have made := Call.make_eq hpacked buffer.nextAddress buffer.remaining
    have room := Blueprint.length_patch_le call.blueprint
      ⟨packed, buffer.nextAddress, call.threadLocalBase⟩ buffer.remaining
    rcases copied : call.blueprint.patch ⟨packed, buffer.nextAddress, call.threadLocalBase⟩
      buffer.remaining with ⟨written, done⟩
    rw [copied] at made room
    dsimp only
    rw [emitPacked_eq copied]
    -- the copy goes behind the pieces and ends before the pages do
    have behind : (buffer.memory.splice buffer.used written).length ≤ buffer.capacity := by
      rw [Bytes.length_splice_max sound.used]
      have room : written.length ≤ buffer.capacity - buffer.used := room
      have used := sound.used
      have memory := sound.memory
      omega
    have kept :
        buffer.used + written.length ≤ (buffer.memory.splice buffer.used written).length := by
      rw [Bytes.length_splice_max sound.used]
      exact Nat.le_max_right _ _
    cases done with
    | error cause =>
      exact ⟨⟨Nat.le_trans (Nat.le_add_right _ _) kept, behind⟩, rfl, rfl,
        Or.inr ⟨cause, made, rfl, rfl, Bytes.take_splice sound.used written⟩⟩
    | ok length =>
      obtain ⟨_, rfl, _⟩ := Blueprint.patch_eq_ok copied
      exact ⟨⟨kept, behind⟩, rfl, rfl,
        Or.inl ⟨written, made, rfl, rfl, Bytes.take_splice_add sound.used written⟩⟩

/-- Buffers that differ at most in what stands behind their pieces. -/
structure Alike (a b : CodeBuffer) : Prop where
  base : a.base = b.base
  capacity : a.capacity = b.capacity
  used : a.used = b.used
  code : a.code = b.code

theorem Alike.perform {a b : CodeBuffer} (alike : a.Alike b) (soundA : a.Sound) (soundB : b.Sound)
    (call : Call) :
    (a.perform call).2 = (b.perform call).2 ∧ (a.perform call).1.Alike (b.perform call).1 := by
  obtain ⟨_, baseA, capacityA, casesA⟩ := perform_cases soundA call
  obtain ⟨_, baseB, capacityB, casesB⟩ := perform_cases soundB call
  have address : a.nextAddress = b.nextAddress := by
    rw [nextAddress, nextAddress, alike.base, alike.used]
  have room : a.remaining = b.remaining := by
    rw [remaining, remaining, alike.capacity, alike.used]
  have base := baseA.trans (alike.base.trans baseB.symm)
  have capacity := capacityA.trans (alike.capacity.trans capacityB.symm)
  rw [address, room] at casesA
  -- both make the same in fresh memory, so both succeed or both fail
  rcases casesA with
      ⟨bytes, made, outcomeA, usedA, codeA⟩ | ⟨cause, made, outcomeA, usedA, codeA⟩ <;>
    rcases casesB with
      ⟨other, again, outcomeB, usedB, codeB⟩ | ⟨other, again, outcomeB, usedB, codeB⟩ <;>
    cases made.symm.trans again
  · refine ⟨?_, base, capacity, ?_, ?_⟩
    · rw [outcomeA, outcomeB, alike.used]
    · rw [usedA, usedB, alike.used]
    · rw [codeA, codeB, alike.code]
  · refine ⟨outcomeA.trans outcomeB.symm, base, capacity, ?_, ?_⟩
    · rw [usedA, usedB, alike.used]
    · rw [codeA, codeB, alike.code]

/-- What stands behind the pieces shows in no later answer and in no later piece. -/
theorem Alike.run {a b : CodeBuffer} (alike : a.Alike b) (soundA : a.Sound) (soundB : b.Sound)
    (calls : List Call) :
    (a.run calls).2 = (b.run calls).2 ∧ (a.run calls).1.Alike (b.run calls).1 := by
  induction calls generalizing a b with
  | nil => exact ⟨rfl, alike⟩
  | cons call rest ih =>
    obtain ⟨outcome, next⟩ := alike.perform soundA soundB call
    obtain ⟨outcomes, last⟩ :=
      ih next (perform_cases soundA call).1 (perform_cases soundB call).1
    exact ⟨congrArg₂ List.cons outcome outcomes, last⟩

/-- A whole run: the pieces follow one another from the end of the code to its new end, and the code
only grows. -/
theorem run_grows {buffer : CodeBuffer} (sound : buffer.Sound) (calls : List Call) :
    (buffer.run calls).1.Sound ∧ (buffer.run calls).1.base = buffer.base ∧
      (buffer.run calls).1.capacity = buffer.capacity ∧
      Piece.Tile buffer.used (emitted (buffer.run calls).2) (buffer.run calls).1.used ∧
      buffer.code <+: (buffer.run calls).1.code := by
  induction calls generalizing buffer with
  | nil => exact ⟨sound, rfl, rfl, rfl, List.prefix_rfl⟩
  | cons call rest ih =>
    obtain ⟨nextSound, nextBase, nextCapacity, cases⟩ := perform_cases sound call
    obtain ⟨lastSound, base, capacity, tile, grows⟩ := ih nextSound
    refine ⟨lastSound, base.trans nextBase, capacity.trans nextCapacity, ?_, ?_⟩
    · show Piece.Tile buffer.used (emitted ((buffer.perform call).2 :: _)) _
      rcases cases with ⟨bytes, _, outcome, used, _⟩ | ⟨cause, _, outcome, used, _⟩
      · rw [outcome]
        rw [used] at tile
        exact ⟨rfl, tile⟩
      · rw [outcome]
        rw [used] at tile
        exact tile
    · rcases cases with ⟨bytes, _, _, _, code⟩ | ⟨cause, _, _, _, code⟩
      · rw [code] at grows
        exact (List.prefix_append _ _).trans grows
      · exact code ▸ grows

/-- Sealing keeps all pieces where they are. -/
theorem finish_eq_ok {buffer : CodeBuffer} {granted : Bool} {after : SealedBuffer}
    (h : buffer.finish granted = .ok after) :
    after.base = buffer.base ∧ after.capacity = buffer.capacity ∧ buffer.code <+: after.bytes := by
  unfold finish at h
  split at h
  · cases h
    exact ⟨rfl, rfl, (List.take_prefix _ _).trans (List.prefix_append _ _)⟩
  · cases h

theorem Sound.toNat_nextAddress {buffer : CodeBuffer} (sound : buffer.Sound)
    (fits : buffer.base.toNat + buffer.capacity < 2 ^ 64) :
    buffer.nextAddress.toNat = buffer.base.toNat + buffer.used := by
  have used := sound.used
  have memory := sound.memory
  have small : buffer.used < 2 ^ 64 := by omega
  rw [nextAddress, UInt64.toNat_add, UInt64.toNat_ofNat_of_lt' small, Nat.mod_eq_of_lt (by omega)]

/-- Calls on a fresh buffer, one of them looked at among those before and after it. The pieces made
before it follow one another from the beginning to the end of the code. If it succeeds, its piece
stands at that end, and whatever is called later, and when the buffer is sealed, holds what a copy
of the blueprint into fresh memory is at its address. If it fails, the code and the room are those
before it, and all later calls end as if it had not been made. -/
theorem pieces_tile_and_stay {base : UInt64} {bytes : Nat} {start here next last : CodeBuffer}
    {before after : List Call} {call : Call} {earlier later : List (Outcome PatchError Piece)}
    {outcome : Outcome PatchError Piece} (made : withCapacity base bytes = .ok start)
    (hbefore : start.run before = (here, earlier)) (hcall : here.perform call = (next, outcome))
    (hafter : next.run after = (last, later)) :
    Piece.Tile 0 (emitted earlier) here.used ∧ here.code.length = here.used ∧
    (∀ piece, outcome = .ok piece →
      piece.offset = here.used ∧ piece.address = base + UInt64.ofNat piece.offset ∧
      (base.toNat + start.capacity < 2 ^ 64 →
        piece.address.toNat = base.toNat + piece.offset) ∧
      piece.length = call.blueprint.code.length ∧ next.used = piece.offset + piece.length ∧
      (∃ packed, call.packed = .ok packed ∧ ∀ fresh : Bytes, piece.length ≤ fresh.length →
        call.blueprint.specialize ⟨packed, piece.address, call.threadLocalBase⟩ fresh =
          (piece.bytesIn last.code ++ fresh.drop piece.length, .ok piece.length)) ∧
      ∀ granted sealed, last.finish granted = .ok sealed →
        sealed.base = base ∧ piece.bytesIn sealed.bytes = piece.bytesIn last.code) ∧
    ∀ failure, outcome = .error failure →
      next.used = here.used ∧ next.remaining = here.remaining ∧ next.code = here.code ∧
      ∃ without, here.run after = (without, later) ∧ without.used = last.used ∧
        without.code = last.code := by
  obtain ⟨startBase, startUsed, startSound⟩ := withCapacity_eq_ok made
  obtain ⟨sound, hereBase, hereCapacity, tile, _⟩ := run_grows startSound before
  simp only [hbefore, startUsed] at sound hereBase hereCapacity tile
  obtain ⟨nextSound, nextBase, nextCapacity, cases⟩ := perform_cases sound call
  simp only [hcall] at nextSound nextBase nextCapacity cases
  obtain ⟨_, lastBase, _, _, grown⟩ := run_grows nextSound after
  simp only [hafter] at lastBase grown
  refine ⟨tile, sound.length_code, fun piece succeeded => ?_, fun failure failed => ?_⟩
  · rcases cases with ⟨copy, copied, ended, used, code⟩ | ⟨cause, _, ended, _⟩
    · obtain rfl := Except.ok.inj (succeeded.symm.trans ended)
      obtain ⟨whole, _, packed, hpacked, anywhere⟩ := Call.make_eq_ok copied
      have inside : here.used + copy.length ≤ next.code.length :=
        Nat.le_of_eq (by rw [nextSound.length_code, used])
      have stays : Piece.bytesIn ⟨here.used, here.nextAddress, copy.length⟩ last.code = copy := by
        rw [Piece.bytesIn_of_prefix grown inside, code,
          Piece.bytesIn_append sound.length_code.symm rfl]
      have address : here.nextAddress = base + UInt64.ofNat here.used := by
        rw [nextAddress, hereBase, startBase]
      refine ⟨rfl, address, fun fits => ?_, whole, used, ?_, fun granted sealed finished => ?_⟩
      · rw [← startBase, ← hereBase, ← hereCapacity] at fits
        rw [sound.toNat_nextAddress fits, hereBase, startBase]
      · exact ⟨packed, hpacked, stays.symm ▸ anywhere⟩
      · obtain ⟨sealedBase, _, kept⟩ := finish_eq_ok finished
        refine ⟨sealedBase.trans (lastBase.trans (nextBase.trans (hereBase.trans startBase))), ?_⟩
        exact Piece.bytesIn_of_prefix kept (Nat.le_trans inside grown.length_le)
    · cases succeeded.symm.trans ended
  · rcases cases with ⟨_, _, ended, _⟩ | ⟨cause, _, ended, used, code⟩
    · cases failed.symm.trans ended
    · have alike : here.Alike next := ⟨nextBase.symm, nextCapacity.symm, used.symm, code.symm⟩
      obtain ⟨outcomes, ends⟩ := alike.run sound nextSound after
      simp only [hafter] at outcomes ends
      refine ⟨used, ?_, code, _, Prod.ext rfl outcomes, ends.used, ends.code⟩
      rw [remaining, remaining, used, nextCapacity]

/-- Return a constant. -/
def returnConstant (value : UInt64) : Call where
  blueprint := {
    symbol := "return_constant"
    code := [0x48, 0xb8] ++ Bytes.ofNat 8 0 ++ [0xc3, 0x0f, 0x1f, 0x44, 0x00, 0x00]
    unpaddedLen := 11, selfRelative32 := [], symbol32 := [], symbol64 := [⟨2, 0⟩]
    threadLocal32 := [], counts := ⟨0, 0, 1⟩ }
  values := .byClass ⟨[], [], [value]⟩
  threadLocalBase := none

/-- Call a function, then another. -/
def callBoth (first second : UInt64) : Call where
  blueprint := {
    symbol := "call_both"
    code := [0xe8, 0xfb, 0xff, 0xff, 0xff, 0xe8, 0xf6, 0xff, 0xff, 0xff]
    unpaddedLen := 10, selfRelative32 := [1, 6], symbol32 := [⟨1, 0⟩, ⟨6, 1⟩], symbol64 := []
    threadLocal32 := [], counts := ⟨0, 2, 0⟩ }
  values := .packed [first, second]
  threadLocalBase := none

/-- A buffer of one page. -/
def onePage : CodeBuffer := ⟨0x100000000000, 4096, [], 0⟩

/-- A piece, then a copy that stops half made because its second target is out of reach, then
another piece in its place. -/
theorem pieces_stay_around_half_made :
    ∃ here next last without, withCapacity 0x100000000000 1 = .ok onePage ∧
      onePage.run [returnConstant 1] = (here, [.ok ⟨0, 0x100000000000, 16⟩]) ∧
      here.perform (callBoth 0x100000000000 0) =
        (next, .error (.error (.displacementOutOfRange "call_both" 6))) ∧
      next.memory ≠ here.memory ∧ next.code = here.code ∧
      next.run [returnConstant 2] = (last, [.ok ⟨16, 0x100000000010, 16⟩]) ∧
      here.run [returnConstant 2] = (without, [.ok ⟨16, 0x100000000010, 16⟩]) ∧
      without.code = last.code := by
  have made : withCapacity 0x100000000000 1 = .ok onePage := by decide
  have first : (onePage.run [returnConstant 1]).2 = [.ok ⟨0, 0x100000000000, 16⟩] := by
    decide +kernel
  have stopped : ((onePage.run [returnConstant 1]).1.perform (callBoth 0x100000000000 0)).2 =
      .error (.error (.displacementOutOfRange "call_both" 6)) := by decide +kernel
  have changed : ((onePage.run [returnConstant 1]).1.perform
      (callBoth 0x100000000000 0)).1.memory ≠ (onePage.run [returnConstant 1]).1.memory := by
    decide +kernel
  have second : (((onePage.run [returnConstant 1]).1.perform
      (callBoth 0x100000000000 0)).1.run [returnConstant 2]).2 =
      [.ok ⟨16, 0x100000000010, 16⟩] := by decide +kernel
  obtain ⟨_, _, code, without, ran, _, same⟩ := (pieces_tile_and_stay made (Prod.ext rfl first)
    (Prod.ext rfl stopped) (Prod.ext rfl second)).2.2.2 _ rfl
  exact ⟨_, _, _, without, made, Prod.ext rfl first, Prod.ext rfl stopped, changed, code,
    Prod.ext rfl second, ran, same⟩

end CodeBuffer

end CopyPatch
