import CloudStorage.LogConfig

/-!
# Buffers of the asynchronous log (`AsyncBuffer.hpp`)

The elements are `char`s in the source; nothing here reads one, so they are of
any type `α`. The positions are kept in order by the type of a buffer.
-/

namespace CloudStorage

/-- `*g_conf_data`: the buffers read the configuration that was accepted. -/
abbrev LogConf := {data : JsonData // data.Accepted}

/-- `std::numeric_limits<size_t>::max()`. -/
def sizeMax : Nat := 2 ^ 64 - 1

/-- What `Push` is given: a pointer to `len` elements, or a null pointer. -/
inductive Source (α : Type)
  | null (len : Nat)
  | elements (data : List α)
  deriving DecidableEq

namespace Source
variable {α : Type}

def len : Source α → Nat
  | .null len => len
  | .elements data => data.length

def content : Source α → List α
  | .null _ => []
  | .elements data => data

end Source

/-- What a push throws. -/
inductive Thrown
  | invalid_argument
  | length_error
  | bad_alloc
  deriving DecidableEq

structure Buffer (α : Type) where
  buffer_ : List α
  write_pos_ : Nat
  read_pos_ : Nat
  read_le : read_pos_ ≤ write_pos_
  write_le : write_pos_ ≤ buffer_.length
  deriving DecidableEq

namespace Buffer
variable {α : Type}

/-- The growth of one round of the loop in `EnsureWritable`. -/
def growth (conf : LogConf) (new_size : Nat) : Nat :=
  if new_size < conf.1.threshold then max new_size 1 else conf.1.linear_growth

theorem growth_pos (conf : LogConf) (new_size : Nat) : 0 < growth conf new_size := by
  have hgrowth := conf.2.checked.growth_pos
  unfold growth
  split <;> omega

/-- The loop of `EnsureWritable`. -/
def grow (conf : LogConf) (required new_size : Nat) : Nat :=
  if new_size < required then
    if growth conf new_size > sizeMax - new_size then required
    else grow conf required (new_size + growth conf new_size)
  else new_size
termination_by required - new_size
decreasing_by
  have hgrowth := growth_pos conf new_size
  omega

theorem le_grow (conf : LogConf) (required new_size : Nat) :
    new_size ≤ grow conf required new_size := by
  fun_induction grow conf required new_size with
  | case1 new_size hlt hover => omega
  | case2 new_size hlt hfits ih => omega
  | case3 new_size hge => omega

theorem required_le_grow (conf : LogConf) (required new_size : Nat) :
    required ≤ grow conf required new_size := by
  fun_induction grow conf required new_size with
  | case1 new_size hlt hover => omega
  | case2 new_size hlt hfits ih => exact ih
  | case3 new_size hge => omega

/-- Doubling overshoots by less than the required size, the linear steps by one of them. -/
theorem grow_le (conf : LogConf) (required new_size : Nat) :
    grow conf required new_size ≤
      max new_size (max (2 * required) (required + conf.1.linear_growth)) := by
  fun_induction grow conf required new_size with
  | case1 new_size hlt hover => omega
  | case2 new_size hlt hfits ih =>
    have hround : new_size + growth conf new_size ≤
        max (2 * required) (required + conf.1.linear_growth) := by
      unfold growth
      split <;> omega
    omega
  | case3 new_size hge => omega

def fresh [Inhabited α] (conf : LogConf) : Buffer α where
  buffer_ := List.replicate conf.1.buffer_size default
  write_pos_ := 0
  read_pos_ := 0
  read_le := Nat.le_refl 0
  write_le := Nat.zero_le _

def IsEmpty (b : Buffer α) : Bool := b.write_pos_ == b.read_pos_
def Capacity (b : Buffer α) : Nat := b.buffer_.length
def WriteableSize (b : Buffer α) : Nat := b.buffer_.length - b.write_pos_
def ReadableSize (b : Buffer α) : Nat := b.write_pos_ - b.read_pos_

/-- The `ReadableSize()` elements from `Begin()` on. -/
def readable (b : Buffer α) : List α := (b.buffer_.drop b.read_pos_).take b.ReadableSize

def Reset (b : Buffer α) : Buffer α :=
  { b with write_pos_ := 0, read_pos_ := 0, read_le := Nat.le_refl 0, write_le := Nat.zero_le _ }

/-- `buffer_.resize(new_size)`, which only ever enlarges. -/
def resize [Inhabited α] (b : Buffer α) (new_size : Nat) (_h : b.buffer_.length ≤ new_size) :
    Buffer α where
  buffer_ := b.buffer_ ++ List.replicate (new_size - b.buffer_.length) default
  write_pos_ := b.write_pos_
  read_pos_ := b.read_pos_
  read_le := b.read_le
  write_le := by
    have hwrite := b.write_le
    simp only [List.length_append, List.length_replicate]
    omega

theorem resize_length [Inhabited α] {b : Buffer α} {new_size : Nat}
    (h : b.buffer_.length ≤ new_size) : (b.resize new_size h).buffer_.length = new_size := by
  simp only [resize, List.length_append, List.length_replicate]
  omega

/-- `resizing` is what `resize` throws, if it does. -/
def EnsureWritable [Inhabited α] (conf : LogConf) (b : Buffer α) (len : Nat)
    (resizing : Option Thrown) : Except Thrown {b' : Buffer α // len ≤ b'.WriteableSize} :=
  if h : len ≤ b.WriteableSize then .ok ⟨b, h⟩
  else if b.write_pos_ > sizeMax - len then .error .length_error
  else
    match resizing with
    | some thrown => .error thrown
    | none =>
      .ok ⟨b.resize (grow conf (b.write_pos_ + len) b.buffer_.length) (le_grow ..), by
        have hrequired := required_le_grow conf (b.write_pos_ + len) b.buffer_.length
        have hlength := resize_length (le_grow conf (b.write_pos_ + len) b.buffer_.length)
        have hwrite : (b.resize _ (le_grow conf (b.write_pos_ + len) b.buffer_.length)).write_pos_ =
            b.write_pos_ := rfl
        unfold WriteableSize
        omega⟩

/-- `std::copy_n` behind the write position, which then moves. -/
def store (b : Buffer α) (data : List α) (_h : data.length ≤ b.WriteableSize) : Buffer α where
  buffer_ := b.buffer_.take b.write_pos_ ++ data ++ b.buffer_.drop (b.write_pos_ + data.length)
  write_pos_ := b.write_pos_ + data.length
  read_pos_ := b.read_pos_
  read_le := Nat.le_add_right_of_le b.read_le
  write_le := by
    have hwrite := b.write_le
    simp only [List.length_append, List.length_take, List.length_drop]
    omega

def Push [Inhabited α] (conf : LogConf) (b : Buffer α) (data : Source α)
    (resizing : Option Thrown) : Except Thrown (Buffer α) :=
  if data.len = 0 then .ok b
  else
    match data with
    | .null _ => .error .invalid_argument
    | .elements data =>
      (b.EnsureWritable conf data.length resizing).map fun b' => b'.1.store data b'.2

/-! ### What the operations do -/

@[simp] theorem fresh_readable [Inhabited α] (conf : LogConf) :
    (fresh conf : Buffer α).readable = [] := by
  simp [fresh, readable, ReadableSize]

@[simp] theorem Reset_readable (b : Buffer α) : b.Reset.readable = [] := by
  simp [Reset, readable, ReadableSize]

@[simp] theorem Reset_read_pos (b : Buffer α) : b.Reset.read_pos_ = 0 := rfl
@[simp] theorem Reset_Capacity (b : Buffer α) : b.Reset.Capacity = b.Capacity := rfl

theorem isEmpty_iff {b : Buffer α} : b.IsEmpty = true ↔ b.readable = [] := by
  have hread := b.read_le
  have hwrite := b.write_le
  simp only [IsEmpty, beq_iff_eq, readable, ReadableSize, List.take_eq_nil_iff,
    List.drop_eq_nil_iff]
  omega

theorem resize_readable [Inhabited α] {b : Buffer α} {new_size : Nat}
    (h : b.buffer_.length ≤ new_size) : (b.resize new_size h).readable = b.readable := by
  have hread := b.read_le
  have hwrite := b.write_le
  simp only [readable, resize, ReadableSize]
  rw [List.drop_append_of_le_length (by omega), List.take_append_of_le_length]
  simp only [List.length_drop]
  omega

theorem store_length {b : Buffer α} {data : List α} (h : data.length ≤ b.WriteableSize) :
    (b.store data h).Capacity = b.Capacity := by
  have hwrite := b.write_le
  unfold WriteableSize at h
  simp only [Capacity, store, List.length_append, List.length_take, List.length_drop]
  omega

theorem store_readable {b : Buffer α} {data : List α} (h : data.length ≤ b.WriteableSize) :
    (b.store data h).readable = b.readable ++ data := by
  have hread := b.read_le
  have hwrite := b.write_le
  have hbefore : (b.buffer_.take b.write_pos_).length = b.write_pos_ := by
    simp only [List.length_take]
    omega
  have hshown : (b.buffer_.take b.write_pos_).drop b.read_pos_ = b.readable := by
    simp only [readable, ReadableSize, List.drop_take]
  have hsize : b.readable.length = b.write_pos_ - b.read_pos_ := by
    rw [← hshown, List.length_drop, hbefore]
  have hmore : b.write_pos_ + data.length - b.read_pos_ = (b.readable ++ data).length := by
    rw [List.length_append, hsize]
    omega
  show ((b.store data h).buffer_.drop b.read_pos_).take
    (b.write_pos_ + data.length - b.read_pos_) = _
  unfold store
  simp only
  rw [List.append_assoc, List.drop_append_of_le_length (by omega), hshown, ← List.append_assoc,
    hmore, List.take_left]

/-- A push appends its elements; it enlarges the buffer only for elements that do
not fit behind those already there. -/
theorem Push_ok [Inhabited α] {conf : LogConf} {b b' : Buffer α} {data : Source α}
    {resizing : Option Thrown} (h : b.Push conf data resizing = .ok b') :
    b'.readable = b.readable ++ data.content ∧ b'.read_pos_ = b.read_pos_ ∧
      (b'.Capacity = b.Capacity ∧ b'.write_pos_ = b.write_pos_ + data.content.length ∨
        b.WriteableSize < data.len ∧ data.len = data.content.length ∧
          b'.Capacity = grow conf (b.write_pos_ + data.content.length) b.Capacity) := by
  unfold Push at h
  split at h
  · rename_i hlen
    cases h
    have hnil : data.content = [] := by
      cases data with
      | null len => rfl
      | elements data => exact List.eq_nil_of_length_eq_zero hlen
    simp [hnil]
  · cases data with
    | null len => cases h
    | elements data =>
      simp only [EnsureWritable] at h
      split at h
      · rename_i hfits
        cases h
        refine ⟨store_readable hfits, rfl, .inl ⟨store_length hfits, rfl⟩⟩
      · rename_i hlong
        split at h
        · cases h
        · cases resizing with
          | some thrown => cases h
          | none =>
            cases h
            have hlarger := le_grow conf (b.write_pos_ + data.length) b.buffer_.length
            refine ⟨?_, rfl, .inr ⟨by simp only [Source.len]; omega, rfl, ?_⟩⟩
            · rw [store_readable, resize_readable hlarger]
              rfl
            · rw [store_length]
              exact resize_length hlarger

end Buffer
end CloudStorage
