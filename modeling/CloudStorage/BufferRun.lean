import CloudStorage.AsyncBuffer
import CloudStorage.Words
import CloudStorage.Lib.Transition
import Mathlib.Logic.Equiv.Basic

/-!
# Runs of buffers in machine arithmetic

The members of a buffer as the methods change them one by one, with every
subtraction and addition of `size_t` made by the given operations. A loop that
does not end within the rounds has no result, and neither has an operation that
wraps where wrapping is checked.
-/

namespace CloudStorage
open Transition

structure RawBuffer (α : Type) where
  buffer_ : List α
  write_pos_ : Nat
  read_pos_ : Nat
  deriving DecidableEq

/-! ### The methods -/

namespace RawBuffer
variable {α : Type} [Inhabited α]

def fresh (conf : LogConf) : RawBuffer α := ⟨List.replicate conf.1.buffer_size default, 0, 0⟩

def Capacity (b : RawBuffer α) : Nat := b.buffer_.length

def readable (b : RawBuffer α) : List α :=
  (b.buffer_.drop b.read_pos_).take (b.write_pos_ - b.read_pos_)

/-- `vector::resize`. -/
def resize (elements : List α) (size : Nat) : List α :=
  elements.take size ++ List.replicate (size - elements.length) default

/-- `std::copy_n` to a position. -/
def copyTo (elements : List α) (position : Nat) (data : List α) : List α :=
  elements.take position ++ data ++ elements.drop (position + data.length)

def growWith (ops : Uint64Ops) (conf : LogConf) (required : Nat) : Nat → Nat → Option Nat
  | 0, _ => none
  | rounds + 1, new_size =>
    if new_size < required then do
      let growth := Buffer.growth conf new_size
      if growth > (← ops.sub sizeMax new_size) then return required
      else growWith ops conf required rounds (← ops.add new_size growth)
    else return new_size

/-- What is thrown, and the object as it is left; `resizing` is what `resize` throws. -/
def EnsureWritable (ops : Uint64Ops) (conf : LogConf) (rounds : Nat) (b : RawBuffer α) (len : Nat)
    (resizing : Option Thrown) : Option (Option Thrown × RawBuffer α) := do
  if len ≤ (← ops.sub b.buffer_.length b.write_pos_) then return (none, b)
  else if b.write_pos_ > (← ops.sub sizeMax len) then return (some .length_error, b)
  else
    let required ← ops.add b.write_pos_ len
    let new_size ← growWith ops conf required rounds b.buffer_.length
    match resizing with
    | some thrown => return (some thrown, b)
    | none => return (none, { b with buffer_ := resize b.buffer_ new_size })

def Push (ops : Uint64Ops) (conf : LogConf) (rounds : Nat) (b : RawBuffer α) (data : Source α)
    (resizing : Option Thrown) : Option (Option Thrown × RawBuffer α) :=
  if data.len = 0 then some (none, b)
  else
    match data with
    | .null _ => some (some .invalid_argument, b)
    | .elements data => do
      match ← b.EnsureWritable ops conf rounds data.length resizing with
      | (some thrown, b) => return (some thrown, b)
      | (none, b) =>
        let write_pos ← ops.add b.write_pos_ data.length
        return (none, { b with buffer_ := copyTo b.buffer_ b.write_pos_ data
                               write_pos_ := write_pos })

def Reset (b : RawBuffer α) : RawBuffer α := { b with write_pos_ := 0, read_pos_ := 0 }

end RawBuffer

/-! ### Runs -/

/-- A length is a `size_t`. -/
inductive BufferOp (ι α : Type)
  | push (i : ι) (data : Source α) (resizing : Option Thrown) (fits : data.len ≤ sizeMax)
  | swap (i other : ι)
  | reset (i : ι)

namespace BufferOp
variable {ι α : Type} [DecidableEq ι] [Inhabited α]

def apply (ops : Uint64Ops) (conf : LogConf) (rounds : Nat) (buffers : ι → RawBuffer α) :
    BufferOp ι α → Option (Option Thrown × (ι → RawBuffer α))
  | .push i data resizing _ =>
    ((buffers i).Push ops conf rounds data resizing).map fun out =>
      (out.1, Function.update buffers i out.2)
  | .swap i other => some (none, buffers ∘ Equiv.swap i other)
  | .reset i => some (none, Function.update buffers i (buffers i).Reset)

/-- One call that returned or threw. -/
def Step (conf : LogConf) (buffers : ι → RawBuffer α) (l : BufferOp ι α × Option Thrown)
    (next : ι → RawBuffer α) : Prop :=
  ∃ rounds, l.1.apply .machine conf rounds buffers = some (l.2, next)

/-- What was pushed since the last reset; a swap takes it along. -/
def pushed (log : List (BufferOp ι α × Option Thrown)) : ι → List α :=
  log.foldl (fun held l =>
    match l with
    | (.push i data _ _, none) => Function.update held i (held i ++ data.content)
    | (.push .., some _) => held
    | (.swap i other, _) => held ∘ Equiv.swap i other
    | (.reset i, _) => Function.update held i []) fun _ => []

end BufferOp

/-! ### The methods return, and nothing wraps -/

section
variable {α : Type} {ops : Uint64Ops} {conf : LogConf}

theorem growWith_eq (hops : ops.Sound) (required rounds : Nat) {new_size : Nat}
    (hsize : new_size ≤ sizeMax) :
    RawBuffer.growWith ops conf required rounds new_size =
        some (Buffer.grow conf required new_size) ∨
      RawBuffer.growWith ops conf required rounds new_size = none ∧
        rounds ≤ required - new_size := by
  induction rounds generalizing new_size with
  | zero => exact .inr ⟨rfl, Nat.zero_le _⟩
  | succ rounds ih =>
    unfold RawBuffer.growWith Buffer.grow
    by_cases hless : new_size < required
    · have hroom : ops.sub sizeMax new_size = some (sizeMax - new_size) :=
        hops.sub sizeMax new_size hsize (by decide)
      simp only [if_pos hless, hroom, Option.bind_eq_bind, Option.bind_some]
      by_cases hover : Buffer.growth conf new_size > sizeMax - new_size
      · rw [if_pos hover, if_pos hover]
        exact .inl rfl
      · have hpos := Buffer.growth_pos conf new_size
        have hnext : ops.add new_size (Buffer.growth conf new_size) =
            some (new_size + Buffer.growth conf new_size) := by
          apply hops.add
          unfold sizeMax at hover hsize
          omega
        rw [if_neg hover, if_neg hover, hnext, Option.bind_some]
        obtain hsome | ⟨hnone, hrounds⟩ :=
          @ih (new_size + Buffer.growth conf new_size) (by omega)
        · exact .inl hsome
        · exact .inr ⟨hnone, by omega⟩
    · rw [if_neg hless, if_neg hless]
      exact .inl rfl

namespace Buffer

def raw (b : Buffer α) : RawBuffer α := ⟨b.buffer_, b.write_pos_, b.read_pos_⟩

variable [Inhabited α]

theorem resize_raw {b : Buffer α} {size : Nat} (h : b.buffer_.length ≤ size) :
    (b.resize size h).raw = { b.raw with buffer_ := RawBuffer.resize b.buffer_ size } := by
  simp only [raw, resize, RawBuffer.resize, List.take_of_length_le h]

/-- What a caller of the checked buffer sees, and the object behind it. -/
def outcome (b : Buffer α) : Except Thrown (Buffer α) → Option Thrown × RawBuffer α
  | .ok b' => (none, b'.raw)
  | .error thrown => (some thrown, b.raw)

theorem EnsureWritable_raw (hops : ops.Sound) {b : Buffer α} (hsize : b.Capacity ≤ sizeMax)
    {len : Nat} (hlen : len ≤ sizeMax) (rounds : Nat) (resizing : Option Thrown) :
    b.raw.EnsureWritable ops conf rounds len resizing =
        some (b.outcome ((b.EnsureWritable conf len resizing).map Subtype.val)) ∨
      b.raw.EnsureWritable ops conf rounds len resizing = none ∧ rounds ≤ sizeMax := by
  have hwrite := b.write_le
  have hcapacity : b.buffer_.length ≤ sizeMax := hsize
  have hmax : sizeMax < 2 ^ 64 := by decide
  have hwriteable : ops.sub b.buffer_.length b.write_pos_ = some b.WriteableSize :=
    hops.sub _ _ hwrite (by omega)
  have hlimit : ops.sub sizeMax len = some (sizeMax - len) := hops.sub _ _ hlen hmax
  simp only [RawBuffer.EnsureWritable, EnsureWritable, raw, hwriteable, hlimit,
    Option.bind_eq_bind, Option.bind_some]
  by_cases hfits : len ≤ b.WriteableSize
  · rw [if_pos hfits, dif_pos hfits]
    exact .inl rfl
  · rw [if_neg hfits, dif_neg hfits]
    by_cases hover : b.write_pos_ > sizeMax - len
    · simp only [hover, if_true]
      exact .inl rfl
    · have hrequired : ops.add b.write_pos_ len = some (b.write_pos_ + len) :=
        hops.add _ _ (by omega)
      simp only [hover, if_false, hrequired, Option.bind_some]
      obtain hgrown | ⟨hnone, hrounds⟩ :=
        @growWith_eq ops conf hops (b.write_pos_ + len) rounds b.buffer_.length hcapacity
      · rw [hgrown, Option.bind_some]
        cases resizing with
        | some thrown => exact .inl rfl
        | none =>
          left
          rw [Except.map, outcome, resize_raw]
          rfl
      · rw [hnone]
        exact .inr ⟨rfl, by omega⟩

theorem grow_le_sizeMax {required new_size : Nat} (hrequired : required ≤ sizeMax)
    (hsize : new_size ≤ sizeMax) : grow conf required new_size ≤ sizeMax := by
  fun_induction grow conf required new_size with
  | case1 new_size hless hover => exact hrequired
  | case2 new_size hless hfits ih => exact ih (by omega)
  | case3 new_size hge => exact hsize

/-- A buffer that was made writable has the elements it had, in no less space. -/
theorem EnsureWritable_ok {b : Buffer α} (hsize : b.Capacity ≤ sizeMax) {len : Nat}
    (hlen : len ≤ sizeMax) {resizing : Option Thrown}
    {b' : {b' : Buffer α // len ≤ b'.WriteableSize}}
    (h : b.EnsureWritable conf len resizing = .ok b') :
    b'.1.readable = b.readable ∧ b'.1.write_pos_ = b.write_pos_ ∧
      b.write_pos_ + len ≤ b'.1.Capacity ∧ b.Capacity ≤ b'.1.Capacity ∧
      b'.1.Capacity ≤ sizeMax := by
  have hwrite := b.write_le
  unfold EnsureWritable at h
  split at h
  · rename_i hfits
    cases h
    have hroom : b.write_pos_ + len ≤ b.Capacity := by
      unfold WriteableSize at hfits
      unfold Capacity
      omega
    exact ⟨rfl, rfl, hroom, Nat.le_refl _, hsize⟩
  · split at h
    · cases h
    · rename_i hroom
      cases resizing with
      | some thrown => cases h
      | none =>
        cases h
        have hlarger := le_grow conf (b.write_pos_ + len) b.buffer_.length
        have hcapacity : (b.resize _ hlarger).Capacity =
            grow conf (b.write_pos_ + len) b.buffer_.length := resize_length hlarger
        have hrequired := required_le_grow conf (b.write_pos_ + len) b.buffer_.length
        have hmost : grow conf (b.write_pos_ + len) b.buffer_.length ≤ sizeMax :=
          grow_le_sizeMax (by omega) hsize
        have hless : b.Capacity ≤ (b.resize _ hlarger).Capacity := by
          rw [hcapacity]
          exact hlarger
        rw [← hcapacity] at hrequired hmost
        exact ⟨resize_readable hlarger, rfl, hrequired, hless, hmost⟩

theorem EnsureWritable_overflow {b : Buffer α} (hsize : b.Capacity ≤ sizeMax) {len : Nat}
    (hlen : len ≤ sizeMax) (hover : sizeMax < b.write_pos_ + len) (resizing : Option Thrown) :
    b.EnsureWritable conf len resizing = .error .length_error := by
  have hwrite := b.write_le
  have hlong : ¬len ≤ b.WriteableSize := by
    unfold Capacity at hsize
    unfold WriteableSize
    omega
  have hlimit : b.write_pos_ > sizeMax - len := by omega
  rw [EnsureWritable, dif_neg hlong, if_pos hlimit]

theorem Push_raw (hops : ops.Sound) {b : Buffer α} (hsize : b.Capacity ≤ sizeMax)
    {data : Source α} (hlen : data.len ≤ sizeMax) (rounds : Nat) (resizing : Option Thrown) :
    b.raw.Push ops conf rounds data resizing = some (b.outcome (b.Push conf data resizing)) ∨
      b.raw.Push ops conf rounds data resizing = none ∧ rounds ≤ sizeMax := by
  unfold RawBuffer.Push Push
  by_cases hempty : data.len = 0
  · rw [if_pos hempty, if_pos hempty]
    exact .inl rfl
  · rw [if_neg hempty, if_neg hempty]
    cases data with
    | null len => exact .inl rfl
    | elements data =>
      simp only [Option.bind_eq_bind]
      obtain hsome | ⟨hnone, hrounds⟩ := EnsureWritable_raw hops hsize hlen rounds resizing
      · simp only [Source.len] at hsome
        rw [hsome, Option.bind_some]
        cases hensured : b.EnsureWritable conf data.length resizing with
        | error thrown => exact .inl rfl
        | ok b' =>
          obtain ⟨-, -, -, -, hmost⟩ := EnsureWritable_ok hsize hlen hensured
          have hwrite := b'.1.write_le
          have hfits := b'.2
          have hend : ops.add b'.1.write_pos_ data.length =
              some (b'.1.write_pos_ + data.length) := by
            apply hops.add
            have hmax : sizeMax < 2 ^ 64 := by decide
            unfold WriteableSize at hfits
            unfold Capacity at hmost
            omega
          left
          show (ops.add b'.1.write_pos_ data.length).bind _ = _
          rw [hend]
          rfl
      · simp only [Source.len] at hnone
        rw [hnone]
        exact .inr ⟨rfl, hrounds⟩

theorem Push_le_sizeMax {b b' : Buffer α} (hsize : b.Capacity ≤ sizeMax) {data : Source α}
    (hlen : data.len ≤ sizeMax) {resizing : Option Thrown}
    (h : b.Push conf data resizing = .ok b') : b'.Capacity ≤ sizeMax := by
  unfold Push at h
  split at h
  · cases h
    exact hsize
  · cases data with
    | null len => cases h
    | elements data =>
      cases hensured : b.EnsureWritable conf data.length resizing with
      | error thrown =>
        simp only [hensured, Except.map] at h
        cases h
      | ok ensured =>
        simp only [hensured, Except.map] at h
        cases h
        obtain ⟨-, -, -, -, hmost⟩ := EnsureWritable_ok hsize hlen hensured
        rw [store_length]
        exact hmost

end Buffer
end

namespace BufferOp
variable {ι α : Type} [DecidableEq ι] {conf : LogConf}

theorem pushed_snoc (log : List (BufferOp ι α × Option Thrown)) (l : BufferOp ι α × Option Thrown) :
    pushed (log ++ [l]) =
      match l with
      | (.push i data _ _, none) => Function.update (pushed log) i (pushed log i ++ data.content)
      | (.push .., some _) => pushed log
      | (.swap i other, _) => pushed log ∘ Equiv.swap i other
      | (.reset i, _) => Function.update (pushed log) i [] := by
  rw [pushed, List.foldl_append]
  rfl

/-- The object is a buffer within `size_t` that holds what was pushed. -/
def Holds (held : List α) (raw : RawBuffer α) : Prop :=
  ∃ b : Buffer α, b.raw = raw ∧ b.Capacity ≤ sizeMax ∧ b.readable = held

variable [Inhabited α]

theorem holds_step {log : List (BufferOp ι α × Option Thrown)} {buffers next : ι → RawBuffer α}
    {l : BufferOp ι α × Option Thrown} (h : ∀ i, Holds (pushed log i) (buffers i))
    (hstep : Step conf buffers l next) : ∀ i, Holds (pushed (log ++ [l]) i) (next i) := by
  obtain ⟨rounds, hstep⟩ := hstep
  obtain ⟨op, thrown⟩ := l
  rw [pushed_snoc]
  cases op with
  | push i data resizing fits =>
    obtain ⟨out, hout, hnext⟩ := Option.map_eq_some_iff.mp hstep
    cases hnext
    obtain ⟨b, hraw, hsize, hheld⟩ := h i
    rw [← hraw] at hout
    obtain hsome | ⟨hnone, -⟩ :=
      Buffer.Push_raw Uint64Ops.machine_sound hsize fits rounds resizing
    · rw [hsome] at hout
      cases hout
      intro j
      by_cases hji : j = i
      · subst hji
        cases hpush : b.Push conf data resizing with
        | error thrown =>
          simp only [Buffer.outcome, Function.update_self]
          exact ⟨b, rfl, hsize, hheld⟩
        | ok b' =>
          simp only [Buffer.outcome, Function.update_self]
          refine ⟨b', rfl, Buffer.Push_le_sizeMax hsize fits hpush, ?_⟩
          rw [(Buffer.Push_ok hpush).1, hheld]
      · cases hpush : b.Push conf data resizing with
        | error thrown =>
          simp only [Buffer.outcome, Function.update_of_ne hji]
          exact h j
        | ok b' =>
          simp only [Buffer.outcome, Function.update_of_ne hji]
          exact h j
    · rw [hnone] at hout
      cases hout
  | swap i other =>
    cases hstep
    exact fun j => h (Equiv.swap i other j)
  | reset i =>
    cases hstep
    intro j
    by_cases hji : j = i
    · subst hji
      obtain ⟨b, hraw, hsize, -⟩ := h j
      simp only [Function.update_self]
      refine ⟨b.Reset, ?_, hsize, Buffer.Reset_readable b⟩
      rw [← hraw]
      rfl
    · simp only [Function.update_of_ne hji]
      exact h j

theorem holds_run {log : List (BufferOp ι α × Option Thrown)} {buffers : ι → RawBuffer α}
    (hrun : Run (Step conf) (fun _ => RawBuffer.fresh conf) log buffers) :
    ∀ i, Holds (pushed log i) (buffers i) := by
  have hI : ∀ (log : List (BufferOp ι α × Option Thrown)) (s : ι → RawBuffer α)
      (l : BufferOp ι α × Option Thrown) (s' : ι → RawBuffer α),
      (∀ i, Holds (pushed log i) (s i)) → Step conf s l s' →
        ∀ i, Holds (pushed (log ++ [l]) i) (s' i) := fun log s l s' h hstep => holds_step h hstep
  refine Run.invariant hI hrun fun i => ⟨Buffer.fresh conf, rfl, ?_, Buffer.fresh_readable conf⟩
  have hbuffer := conf.2.checked.buffer_lt
  simp only [Buffer.Capacity, Buffer.fresh, List.length_replicate]
  unfold sizeMax
  omega

/-- The call ends with `out`, and nothing wraps on the way. -/
def Ends {β : Type} (call : Uint64Ops → Nat → Option β) (out : β) : Prop :=
  ∀ ops, ops = .machine ∨ ops = .checked → ∀ rounds, sizeMax < rounds → call ops rounds = some out

theorem ends_of_sound {β : Type} {call : Uint64Ops → Nat → Option β} {out : β}
    (h : ∀ ops : Uint64Ops, ops.Sound → ∀ rounds,
      call ops rounds = some out ∨ call ops rounds = none ∧ rounds ≤ sizeMax) : Ends call out := by
  intro ops hops rounds hrounds
  have hsound : ops.Sound := by
    obtain rfl | rfl := hops
    · exact Uint64Ops.machine_sound
    · exact Uint64Ops.checked_sound
  obtain hsome | ⟨-, hfew⟩ := h ops hsound rounds
  · exact hsome
  · omega

theorem push_ends {buffers : ι → RawBuffer α} {i : ι} {b : Buffer α} (hraw : b.raw = buffers i)
    (hsize : b.Capacity ≤ sizeMax) (data : Source α) (resizing : Option Thrown)
    (fits : data.len ≤ sizeMax) :
    Ends (fun ops rounds => apply ops conf rounds buffers (.push i data resizing fits))
      ((b.outcome (b.Push conf data resizing)).1,
        Function.update buffers i (b.outcome (b.Push conf data resizing)).2) := by
  refine ends_of_sound fun ops hops rounds => ?_
  simp only [apply, ← hraw]
  obtain hsome | ⟨hnone, hrounds⟩ := Buffer.Push_raw hops hsize fits rounds resizing
  · rw [hsome]
    exact .inl rfl
  · rw [hnone]
    exact .inr ⟨rfl, hrounds⟩

theorem apply_ends {held : ι → List α} {buffers : ι → RawBuffer α}
    (h : ∀ i, Holds (held i) (buffers i)) (op : BufferOp ι α) :
    ∃ thrown next, Ends (fun ops rounds => op.apply ops conf rounds buffers) (thrown, next) ∧
      (thrown ≠ none → next = buffers) := by
  cases op with
  | push i data resizing fits =>
    obtain ⟨b, hraw, hsize, -⟩ := h i
    refine ⟨_, _, push_ends hraw hsize data resizing fits, fun hthrown => ?_⟩
    cases hpush : b.Push conf data resizing with
    | ok b' =>
      rw [hpush] at hthrown
      exact absurd rfl hthrown
    | error thrown =>
      rw [Buffer.outcome, hraw]
      exact Function.update_eq_self i buffers
  | swap i other => exact ⟨none, _, fun _ _ _ _ => rfl, fun hthrown => absurd rfl hthrown⟩
  | reset i => exact ⟨none, _, fun _ _ _ _ => rfl, fun hthrown => absurd rfl hthrown⟩

/-- In every reached state a buffer reads back what was pushed, every call ends without a
wrap, and `EnsureWritable` gives the space that was asked for or leaves the object alone. -/
theorem buffers_keep_data {log : List (BufferOp ι α × Option Thrown)} {buffers : ι → RawBuffer α}
    (hrun : Run (Step conf) (fun _ => RawBuffer.fresh conf) log buffers) :
    (∀ i, (buffers i).readable = pushed log i) ∧
      (∀ op : BufferOp ι α, ∃ thrown next,
        Ends (fun ops rounds => op.apply ops conf rounds buffers) (thrown, next) ∧
          (thrown ≠ none → next = buffers)) ∧
      (∀ i len resizing, len ≤ sizeMax → ∃ thrown b',
        Ends (fun ops rounds => (buffers i).EnsureWritable ops conf rounds len resizing)
            (thrown, b') ∧
          b'.readable = (buffers i).readable ∧ b'.write_pos_ = (buffers i).write_pos_ ∧
          (buffers i).Capacity ≤ b'.Capacity ∧
          (thrown = none → (buffers i).write_pos_ + len ≤ b'.Capacity) ∧
          (thrown ≠ none → b' = buffers i)) ∧
      ∀ i data resizing (fits : (Source.elements data).len ≤ sizeMax),
        sizeMax < (buffers i).write_pos_ + data.length →
          Ends (fun ops rounds => apply ops conf rounds buffers
            (.push i (.elements data) resizing fits)) (some .length_error, buffers) := by
  have hholds := holds_run hrun
  refine ⟨fun i => ?_, apply_ends hholds, fun i len resizing hlen => ?_,
    fun i data resizing fits hover => ?_⟩
  · obtain ⟨b, hraw, -, hheld⟩ := hholds i
    rw [← hraw, ← hheld]
    rfl
  · obtain ⟨b, hraw, hsize, -⟩ := hholds i
    rw [← hraw]
    refine ⟨_, _, ends_of_sound fun ops hops rounds =>
      Buffer.EnsureWritable_raw hops hsize hlen rounds resizing, ?_⟩
    cases hensured : b.EnsureWritable conf len resizing with
    | error thrown =>
      exact ⟨rfl, rfl, Nat.le_refl _, fun h => (nomatch h), fun _ => rfl⟩
    | ok b' =>
      obtain ⟨hreadable, hwrite, hroom, hless, -⟩ := Buffer.EnsureWritable_ok hsize hlen hensured
      exact ⟨hreadable, hwrite, hless, fun _ => hroom, fun h => absurd rfl h⟩
  · obtain ⟨b, hraw, hsize, -⟩ := hholds i
    have hpush : b.Push conf (.elements data) resizing = .error .length_error := by
      have hwrite : b.write_pos_ = (buffers i).write_pos_ := congrArg RawBuffer.write_pos_ hraw
      have hcapacity := b.write_le
      have hsome : ¬data.length = 0 := by
        unfold Buffer.Capacity at hsize
        omega
      have hensured := @Buffer.EnsureWritable_overflow _ conf _ b hsize data.length fits
        (hwrite ▸ hover) resizing
      simp only [Buffer.Push, Source.len, if_neg hsome, hensured]
      rfl
    have hends := @push_ends _ _ _ conf _ _ _ _ hraw hsize (.elements data) resizing fits
    rw [hpush, Buffer.outcome, hraw, Function.update_eq_self] at hends
    exact hends

/-- Buffers of 3, doubled below 6; from there on the growth would wrap. -/
def wideConf : LogConf :=
  ⟨JsonData.shipped 3 6 (2 ^ 64 - 1), JsonData.shipped_accepted (by decide) (by decide)⟩

/-- A push that fits, one that doubles the buffer and is then given just its size, one of a
null pointer; the buffers are exchanged and both are pushed to, one after a reset. -/
def sampleCalls : List (BufferOp Bool Nat) :=
  [.push false (.elements [1, 2, 3]) none (by decide),
    .push false (.elements [4, 5, 6, 7]) none (by decide), .push true (.null 2) none (by decide),
    .swap false true, .push false (.elements [8]) none (by decide), .reset false,
    .push false (.elements [9]) none (by decide)]

def playCall (conf : LogConf) (buffers : Bool → RawBuffer Nat) (op : BufferOp Bool Nat) :
    Option ((BufferOp Bool Nat × Option Thrown) × (Bool → RawBuffer Nat)) :=
  (op.apply .machine conf 9 buffers).map fun out => ((op, out.1), out.2)

theorem playCall_step {conf : LogConf} {buffers next : Bool → RawBuffer Nat}
    {op : BufferOp Bool Nat} {l : BufferOp Bool Nat × Option Thrown}
    (h : playCall conf buffers op = some (l, next)) : Step conf buffers l next := by
  obtain ⟨out, hout, hl⟩ := Option.map_eq_some_iff.mp h
  cases hl
  exact ⟨9, hout⟩

theorem buffers_keep_data_sample : ∃ (log : List (BufferOp Bool Nat × Option Thrown))
    (buffers : Bool → RawBuffer Nat),
    Run (Step wideConf) (fun _ => RawBuffer.fresh wideConf) log buffers ∧
      log.map Prod.snd = [none, none, some .invalid_argument, none, none, none, none] ∧
      (buffers true).Capacity = 7 ∧ (buffers true).readable = [1, 2, 3, 4, 5, 6, 7] ∧
      (buffers false).readable = [9] ∧ ∀ i, (buffers i).readable = pushed log i := by
  obtain ⟨out, hplay, hthrown, hcapacity, htrue, hfalse⟩ :
      ∃ out, Run.play (playCall wideConf) (fun _ => RawBuffer.fresh wideConf) sampleCalls =
          some out ∧
        out.1.map Prod.snd = [none, none, some .invalid_argument, none, none, none, none] ∧
        (out.2 true).Capacity = 7 ∧ (out.2 true).readable = [1, 2, 3, 4, 5, 6, 7] ∧
        (out.2 false).readable = [9] := ⟨_, rfl, rfl, rfl, rfl, rfl⟩
  have hrun : Run (Step wideConf) (fun _ => RawBuffer.fresh wideConf) out.1 out.2 := by
    apply Run.of_play _ hplay
    intro buffers op l next h
    exact playCall_step h
  exact ⟨out.1, out.2, hrun, hthrown, hcapacity, htrue, hfalse, (buffers_keep_data hrun).1⟩

end BufferOp
end CloudStorage
