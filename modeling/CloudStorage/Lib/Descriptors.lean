import Mathlib.Data.Multiset.Range
import Mathlib.Data.Multiset.Count
import Mathlib.Logic.Function.Basic

/-!
# Descriptors that are given out again

A descriptor may be given out again once it is closed, so what a program holds
does not say what it stands for. The table numbers what was opened. A ledger
has the descriptors that are held, each still to be closed, and what the closed
ones stood for, where `none` is a descriptor that was not open.
-/

namespace Descriptors

variable {δ : Type}

structure Table (δ : Type) where
  entry : δ → Option Nat
  opened : Nat

def Table.new : Table δ := ⟨fun _ => none, 0⟩

/-- All that was opened is held once or was closed once, and nothing else was closed. -/
def Accounted (t : Table δ) (held : Multiset δ) (closed : Multiset (Option Nat)) : Prop :=
  held.map t.entry + closed = (Multiset.range t.opened).map some

section
variable {t : Table δ} {held : Multiset δ} {closed : Multiset (Option Nat)}

theorem accounted_new : Accounted (Table.new : Table δ) 0 0 := rfl

theorem Accounted.nodup_entries (h : Accounted t held closed) :
    (held.map t.entry + closed).Nodup := by
  rw [h]
  exact (Multiset.nodup_range _).map fun _ _ => Option.some.inj

theorem Accounted.nodup (h : Accounted t held closed) : held.Nodup :=
  Multiset.Nodup.of_map t.entry (Multiset.nodup_add.mp h.nodup_entries).1

theorem Accounted.mem (h : Accounted t held closed) {x : Option Nat} :
    x ∈ held.map t.entry + closed ↔ ∃ c < t.opened, x = some c := by
  rw [h, Multiset.mem_map]
  simp only [Multiset.mem_range, eq_comm]

theorem Accounted.entry_some (h : Accounted t held closed) {fd : δ} (hfd : fd ∈ held) :
    ∃ c < t.opened, t.entry fd = some c :=
  h.mem.mp (Multiset.mem_add.mpr (.inl (Multiset.mem_map_of_mem _ hfd)))

/-- Nothing is closed twice. -/
theorem Accounted.none_not_closed (h : Accounted t held closed) : none ∉ closed := by
  intro hnone
  obtain ⟨c, _, hc⟩ := h.mem.mp (Multiset.mem_add.mpr (.inr hnone))
  cases hc

theorem Accounted.once (h : Accounted t held closed) {c : Nat} (hc : c < t.opened) :
    closed.count (some c) + (held.map t.entry).count (some c) = 1 := by
  have hmem : some c ∈ held.map t.entry + closed := h.mem.mpr ⟨c, hc, rfl⟩
  rw [Nat.add_comm, ← Multiset.count_add]
  exact Multiset.count_eq_one_of_mem h.nodup_entries hmem

end

section
variable [DecidableEq δ] {t : Table δ} {held : Multiset δ} {closed : Multiset (Option Nat)} {fd : δ}

def Table.open (t : Table δ) (fd : δ) : Table δ :=
  ⟨Function.update t.entry fd (some t.opened), t.opened + 1⟩

def Table.close (t : Table δ) (fd : δ) : Table δ := ⟨Function.update t.entry fd none, t.opened⟩

theorem map_update (entry : δ → Option Nat) (x : Option Nat) (h : fd ∉ held) :
    held.map (Function.update entry fd x) = held.map entry :=
  Multiset.map_congr rfl fun _ hmem => Function.update_of_ne (ne_of_mem_of_not_mem hmem h) ..

theorem entry_open (t : Table δ) (fd : δ) : (t.open fd).entry fd = some t.opened :=
  Function.update_self ..

theorem map_open (h : fd ∉ held) : held.map (t.open fd).entry = held.map t.entry :=
  map_update _ _ h

theorem map_close (h : fd ∉ held) : held.map (t.close fd).entry = held.map t.entry :=
  map_update _ _ h

theorem Accounted.open (h : Accounted t held closed) (hfree : t.entry fd = none) :
    Accounted (t.open fd) ({fd} + held) closed := by
  have hnot : fd ∉ held := by
    intro hfd
    obtain ⟨c, _, hc⟩ := h.entry_some hfd
    rw [hfree] at hc
    cases hc
  have hopened : (Multiset.range (t.open fd).opened).map some =
      some t.opened ::ₘ (Multiset.range t.opened).map some := by
    rw [Table.open, Multiset.range_succ, Multiset.map_cons]
  rw [Accounted, Multiset.singleton_add, Multiset.map_cons, entry_open, map_open hnot, hopened,
    Multiset.cons_add, h]

theorem Accounted.close (h : Accounted t ({fd} + held) closed) :
    Accounted (t.close fd) held (closed + {t.entry fd}) := by
  have hnot : fd ∉ held := by
    have hnodup := h.nodup
    rw [Multiset.singleton_add] at hnodup
    exact (Multiset.nodup_cons.mp hnodup).1
  have hall : t.entry fd ::ₘ (held.map t.entry + closed) = (Multiset.range t.opened).map some := by
    rwa [Accounted, Multiset.singleton_add, Multiset.map_cons, Multiset.cons_add] at h
  rw [Accounted, map_close hnot, ← Multiset.add_assoc, Multiset.add_comm _ {t.entry fd},
    Multiset.singleton_add, hall]
  rfl

end
end Descriptors
