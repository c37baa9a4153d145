import CloudStorage.FileSpecs

/-!
# Compressed files (`bundle.h`, `FileUtil::Compress`, `FileUtil::UnCompress`)

The library behind the wrappers is a parameter: the functions it computes when
an operation succeeds. Whether an operation succeeds is the environment's
answer to the call `codec`. The wrappers return only a string: the input when
the operation reports failure, or when there is nothing to do.
-/

namespace CloudStorage
open Posix Interact

structure Bundle where
  isPacked : Bytes → Bool
  padding : Bytes → Nat
  /-- `bundle_enc_vlebit` -/
  encVlebit : Nat → Bytes
  /-- `bundle_dec_vlebit`: the value and the number of bytes read -/
  decVlebit : Bytes → Nat × Nat
  uncPayload : Nat → Nat
  /-- what `bundle_pack` writes -/
  packed : Nat → Bytes → Bytes
  /-- what `bundle_unpack` writes, given the compressed bytes and the size -/
  unpacked : Nat → Bytes → Nat → Bytes

/-- `BUNDLE_MAX_HEADER_SIZE`. -/
def maxHeaderSize : Nat := 32

/-- A `char` taken to an `unsigned`, with its sign. -/
def charToUnsigned (b : Byte) : Nat := if b.toNat < 128 then b.toNat else 2 ^ 32 - 256 + b.toNat

/-- What the wrapper `pack` returns on success: the padded header and the data. -/
def Bundle.image (lib : Bundle) (q : Nat) (input : Bytes) : Bytes :=
  let z := lib.packed q input
  let header := 0x70 :: UInt8.ofNat q :: (lib.encVlebit input.length ++ lib.encVlebit z.length)
  List.replicate (maxHeaderSize - header.length) 0 ++ header ++ z

/-- What the wrapper `unpack` returns on success. -/
def Bundle.content (lib : Bundle) (input : Bytes) : Bytes :=
  let pad := lib.padding input
  let q := charToUnsigned ((input.drop (pad + 1)).headD 0)
  let ptr := input.drop (pad + 2)
  let size1 := lib.decVlebit ptr
  let ptr := ptr.drop size1.2
  let size2 := lib.decVlebit ptr
  let ptr := ptr.drop size2.2
  lib.unpacked q (ptr.take size2.1) (size1.1 + lib.uncPayload q)

/-- A successful pack followed by a successful unpack gives the input back. -/
def Bundle.Inverts (lib : Bundle) : Prop :=
  ∀ q input, input ≠ [] → lib.content (lib.image q input) = input

/-- `bundle::pack`; nothing when an exception leaves it. -/
def pack (lib : Bundle) (q : Nat) (input : Bytes) : Program (Option Bytes) := do
  if input = [] then return some input
  else
    match ← codec with
    | .ok => return some (lib.image q input)
    | .failed => return some input
    | .threw => return none

/-- `bundle::unpack`. -/
def unpack (lib : Bundle) (input : Bytes) : Program (Option Bytes) := do
  if lib.isPacked input then
    match ← codec with
    | .ok => return some (lib.content input)
    | .failed => return some input
    | .threw => return none
  else return some input

def compress (lib : Bundle) (path content : Bytes) (format : Nat) : Program Bool := do
  match ← pack lib format content with
  | none => return false
  | some packed => setContent path packed

def unCompress (lib : Bundle) (path outputPath : Bytes) : Program Bool := do
  match ← getContent path with
  | none => return false
  | some packed =>
    match ← unpack lib packed with
    | none => return false
    | some unpacked => setContent outputPath unpacked

variable {A : Assumption} {w : World} {lib : Bundle}

/-- The codec may answer `o`. -/
def CodecMay (A : Assumption) (o : Outcome) : Prop := ∃ w, A w .codec o

def codecOutcome : (c : Call) → c.Resp → Option Outcome
  | .codec, o => some o
  | _, _ => none

/-- The codec always answers `o`. -/
def CodecAnswers (o : Outcome) : Assumption := fun _ c r => ∀ o' ∈ codecOutcome c r, o' = o

instance (o : Outcome) (w : World) (c : Call) (r : c.Resp) : Decidable (CodecAnswers o w c r) :=
  inferInstanceAs (Decidable (∀ o' ∈ codecOutcome c r, o' = o))

theorem CodecMay.eq {o o' : Outcome} (hA : ∀ w c r, A w c r → CodecAnswers o w c r)
    (h : CodecMay A o') : o' = o := by
  obtain ⟨w, hw⟩ := h
  exact hA _ _ _ hw o' rfl

/-- What the wrapper `pack` may return. -/
inductive PackResult (A : Assumption) (lib : Bundle) (q : Nat) (input : Bytes) : Bytes → Prop
  | empty : input = [] → PackResult A lib q input input
  | packed : input ≠ [] → CodecMay A .ok → PackResult A lib q input (lib.image q input)
  | unchanged : input ≠ [] → CodecMay A .failed → PackResult A lib q input input

/-- What the wrapper `unpack` may return. -/
inductive UnpackResult (A : Assumption) (lib : Bundle) (input : Bytes) : Bytes → Prop
  | plain : lib.isPacked input = false → UnpackResult A lib input input
  | unpacked : lib.isPacked input = true → CodecMay A .ok →
      UnpackResult A lib input (lib.content input)
  | unchanged : lib.isPacked input = true → CodecMay A .failed → UnpackResult A lib input input

theorem wp_pack {q : Nat} {input : Bytes} :
    wp (System A) (pack lib q input)
      (fun r w' => Same w w' ∧ ∀ s, r = some s → PackResult A lib q input s) (Same w) w := by
  unfold pack
  split
  · rename_i he
    exact ⟨Same.refl w, fun s hs => by cases hs; exact .empty he⟩
  · rename_i hne
    rw [wp_bind]
    refine wp_codec (Same.refl w) fun o w' hA hD hfs => ?_
    have hsame := hD.same hfs
    cases o with
    | ok => exact ⟨hsame, fun s hs => by cases hs; exact .packed hne ⟨w, hA⟩⟩
    | failed => exact ⟨hsame, fun s hs => by cases hs; exact .unchanged hne ⟨w, hA⟩⟩
    | threw => exact ⟨hsame, fun s hs => by cases hs⟩

theorem wp_unpack {input : Bytes} :
    wp (System A) (unpack lib input)
      (fun r w' => Same w w' ∧ ∀ s, r = some s → UnpackResult A lib input s) (Same w) w := by
  unfold unpack
  split
  · rename_i hp
    rw [wp_bind]
    refine wp_codec (Same.refl w) fun o w' hA hD hfs => ?_
    have hsame := hD.same hfs
    cases o with
    | ok => exact ⟨hsame, fun s hs => by cases hs; exact .unpacked hp ⟨w, hA⟩⟩
    | failed => exact ⟨hsame, fun s hs => by cases hs; exact .unchanged hp ⟨w, hA⟩⟩
    | threw => exact ⟨hsame, fun s hs => by cases hs⟩
  · rename_i hp
    exact ⟨Same.refl w, fun s hs => by cases hs; exact .plain (by simpa using hp)⟩

theorem wp_compress {path content : Bytes} {format i : Nat} (h : w.fs.Owns (place path) i) :
    wp (System A) (compress lib path content format)
      (fun ok w' => Frame {place path} w w' ∧ w'.fs.Owns (place path) i ∧
        (ok = true → ∃ s t, PackResult A lib format content s ∧
          w'.fs.get (place path) = some ⟨s, t⟩ ∧ w.clock ≤ t ∧ t ≤ w'.clock))
      (fun w' => Frame {place path} w w') w := by
  unfold compress
  refine wp_seq wp_pack (fun _ hs => (Frame.refl _ w).same hs) ?_
  rintro r w₁ ⟨h₁, hr⟩
  have hf₁ : Frame {place path} w w₁ := (Frame.refl _ w).same h₁
  cases r with
  | none => exact ⟨hf₁, h₁.fs ▸ h, fun hc => by cases hc⟩
  | some s =>
    have hown : w₁.fs.Owns (place path) i := h₁.fs ▸ h
    refine wp_mono (wp_setContent hown) ?_ fun _ hf => hf₁.trans hf
    rintro ok w' ⟨hf, ho, hok⟩
    refine ⟨hf₁.trans hf, ho, fun he => ?_⟩
    obtain ⟨t, hget, hlo, hhi⟩ := hok he
    exact ⟨s, t, hr s rfl, hget, Int.le_trans h₁.frame.clock hlo, hhi⟩

theorem wp_unCompress {path outputPath : Bytes} {i : Nat}
    (h : w.fs.Owns (place outputPath) i) :
    wp (System A) (unCompress lib path outputPath)
      (fun ok w' => Frame {place outputPath} w w' ∧ w'.fs.Owns (place outputPath) i ∧
        (ok = true → ∃ file s t, w.fs.get (place path) = some file ∧
          UnpackResult A lib file.bytes s ∧ w'.fs.get (place outputPath) = some ⟨s, t⟩))
      (fun w' => Frame {place outputPath} w w') w := by
  unfold unCompress
  refine wp_seq wp_getContent (fun _ hs => (Frame.refl _ w).same hs) ?_
  rintro r w₁ ⟨h₁, hr⟩
  have hf₁ : Frame {place outputPath} w w₁ := (Frame.refl _ w).same h₁
  cases r with
  | none => exact ⟨hf₁, h₁.fs ▸ h, fun hc => by cases hc⟩
  | some packed =>
    obtain ⟨file, hfile, rfl⟩ := hr packed rfl
    refine wp_seq wp_unpack (fun _ hs => hf₁.same hs) ?_
    rintro r₂ w₂ ⟨h₂, hr₂⟩
    have hf₂ := hf₁.same h₂
    have hown : w₂.fs.Owns (place outputPath) i := (h₁.trans h₂).fs ▸ h
    cases r₂ with
    | none => exact ⟨hf₂, hown, fun hc => by cases hc⟩
    | some s =>
      refine wp_mono (wp_setContent hown) ?_ fun _ hf => hf₂.trans hf
      rintro ok w' ⟨hf, ho, hok⟩
      refine ⟨hf₂.trans hf, ho, fun he => ?_⟩
      obtain ⟨t, hget, -⟩ := hok he
      exact ⟨file, s, t, hfile, hr₂ s rfl, hget⟩

/-! ### The format that stores the data as it is -/

/-- Groups of seven bits, the lowest first; the high bit says that more follow. -/
def encGroups : Nat → Nat → Bytes
  | 0, _ => []
  | rounds + 1, n =>
    if n < 128 then [UInt8.ofNat n] else UInt8.ofNat (n % 128 + 128) :: encGroups rounds (n / 128)

def decGroups : Bytes → Nat × Nat
  | [] => (0, 0)
  | b :: rest =>
    if b.toNat < 128 then (b.toNat, 1)
    else ((decGroups rest).1 * 128 + (b.toNat - 128), (decGroups rest).2 + 1)

theorem decGroups_encGroups (rounds n : Nat) (h : n < rounds) (rest : Bytes) :
    decGroups (encGroups rounds n ++ rest) = (n, (encGroups rounds n).length) := by
  induction rounds generalizing n with
  | zero => omega
  | succ rounds ih =>
    rw [encGroups]
    by_cases hn : n < 128
    · have hb : (UInt8.ofNat n).toNat = n := by simp; omega
      simp [hn, decGroups, hb]
    · have hb : (UInt8.ofNat (n % 128 + 128)).toNat = n % 128 + 128 := by
        simp only [UInt8.toNat_ofNat']
        omega
      have hbig : ¬n % 128 + 128 < 128 := by omega
      simp only [hn, ite_false, List.cons_append, decGroups, hb, hbig, ih (n / 128) (by omega),
        List.length_cons, Prod.mk.injEq, and_true]
      omega

def Bundle.raw : Bundle where
  isPacked s := decide ((s.dropWhile fun b => decide (b = 0)).head? = some 0x70)
  padding s := (s.takeWhile fun b => decide (b = 0)).length
  encVlebit n := encGroups (n + 1) n
  decVlebit := decGroups
  uncPayload _ := 0
  packed _ x := x
  unpacked _ z _ := z

/-- The padding ends at the first byte of the header. -/
theorem takeWhile_zeros (n : Nat) (s : Bytes) :
    (List.replicate n (0 : Byte) ++ 0x70 :: s).takeWhile (fun b => decide (b = 0)) =
      List.replicate n 0 := by
  rw [List.takeWhile_append_of_pos (by simp +contextual)]
  simp

theorem Bundle.raw_image (q : Nat) (input : Bytes) :
    ∃ n, Bundle.raw.image q input = List.replicate n 0 ++ 0x70 :: UInt8.ofNat q ::
      (encGroups (input.length + 1) input.length ++
        (encGroups (input.length + 1) input.length ++ input)) := by
  refine ⟨maxHeaderSize - ((encGroups (input.length + 1) input.length ++
    encGroups (input.length + 1) input.length).length + 1 + 1), ?_⟩
  simp only [Bundle.image, Bundle.raw, List.cons_append, List.append_assoc, List.length_cons]

theorem Bundle.raw_inverts : Bundle.raw.Inverts := by
  intro q input _
  obtain ⟨n, hn⟩ := Bundle.raw_image q input
  have hpad : Bundle.raw.padding (Bundle.raw.image q input) = n := by
    rw [hn]
    simp only [Bundle.raw, takeWhile_zeros, List.length_replicate]
  have hdec := decGroups_encGroups (input.length + 1) input.length (Nat.lt_succ_self _)
  have hdrop : (Bundle.raw.image q input).drop (n + 2) =
      encGroups (input.length + 1) input.length ++
        (encGroups (input.length + 1) input.length ++ input) := by
    rw [hn, ← List.drop_drop, List.drop_left' List.length_replicate]
    rfl
  unfold Bundle.content
  rw [hpad]
  simp only [hdrop]
  simp only [Bundle.raw, hdec, List.drop_left, List.take_length]

theorem Bundle.raw_recognised (q : Nat) (input : Bytes) :
    Bundle.raw.isPacked (Bundle.raw.image q input) = true := by
  obtain ⟨n, hn⟩ := Bundle.raw_image q input
  rw [hn]
  simp only [Bundle.raw, decide_eq_true_eq]
  rw [List.dropWhile_append_of_pos (by simp +contextual)]
  rfl

end CloudStorage
