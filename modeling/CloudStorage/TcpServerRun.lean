import CloudStorage.TcpServer
import Mathlib.Algebra.BigOperators.Group.List.Basic
import Mathlib.Algebra.Order.Group.Multiset
import Mathlib.Data.List.Perm.Basic

/-!
# Counting the connections of the backup server

What every thread counts for, holds and has still to do is its share; a step trades
the share of one thread for another. The counter and the sockets of the server are
the sums of the shares, over any run.
-/

namespace CloudStorage.TcpServer
open Posix Backup

/-! ### What the threads have a share in -/

/-- What a thread counts for in `active_connections_` and among the admitted, the descriptors it
still has to close, and a bound on the steps it is away from its end. -/
structure Share where
  counted : Nat
  admitted : Nat
  sockets : Multiset Int
  left : Nat

def Share.over : Share := ⟨0, 0, 0, 0⟩

/-- The steps that one connection costs at most. -/
def perConnection : Nat := kMaxMessageSize + 9

/-- A connection is processed from `fetch_add` on until `fetch_sub` or until a thread has it. -/
def LoopPc.share : LoopPc → Share
  | .accept => .over
  | .fetch_add connection _ => ⟨0, 0, {connection}, kMaxMessageSize + 8⟩
  | .inet_ntop connection _ => ⟨1, 1, {connection}, kMaxMessageSize + 7⟩
  | .thread connection _ => ⟨1, 1, {connection}, kMaxMessageSize + 6⟩
  | .fetch_sub connection => ⟨1, 0, {connection}, 2⟩
  | .close connection => ⟨0, 0, {connection}, 1⟩

def HandlerPc.left : HandlerPc → Nat
  | .setsockopt => kMaxMessageSize + 5
  | .recv message => kMaxMessageSize - message.length + 4
  | .callback_ _ => 3
  | .close => 2
  | .fetch_sub => 1

def HandlerPc.sockets (socket_fd : Int) : HandlerPc → Multiset Int
  | .fetch_sub => 0
  | _ => {socket_fd}

def Handler.share (handler : Handler) : Share :=
  ⟨1, 1, handler.pc.sockets handler.socket_fd, handler.pc.left⟩

/-- How a step changes the share of the thread that takes it. -/
inductive Trade (max_connections_ active_connections_ : UInt64) : Effect → Share → Share → Prop
  | again (a : Share) : Trade max_connections_ active_connections_ .again a a
  | internal {n m m' left left' : Nat} {sockets : Multiset Int} (hm : m' ≤ m) (h : left' < left) :
      Trade max_connections_ active_connections_ .internal ⟨n, m, sockets, left⟩
        ⟨n, m', sockets, left'⟩
  | accepted {fd : Int} {left' : Nat} (hfd : 0 ≤ fd) (h : left' < perConnection) :
      Trade max_connections_ active_connections_ (.accepted fd) .over ⟨0, 0, {fd}, left'⟩
  | raised {m' left left' : Nat} {sockets : Multiset Int}
      (hm : m' = 0 ∨ m' = 1 ∧ active_connections_ < max_connections_) (h : left' < left) :
      Trade max_connections_ active_connections_ .raised ⟨0, 0, sockets, left⟩
        ⟨1, m', sockets, left'⟩
  | lowered {m left left' : Nat} {sockets : Multiset Int} (h : left' < left) :
      Trade max_connections_ active_connections_ .lowered ⟨1, m, sockets, left⟩
        ⟨0, 0, sockets, left'⟩
  | closed {n m left left' : Nat} {fd : Int} (h : left' < left) :
      Trade max_connections_ active_connections_ (.closed fd) ⟨n, m, {fd}, left⟩ ⟨n, m, 0, left'⟩
  | started {left : Nat} {fd : Int} {client_info : Bytes}
      (h : (Handler.mk fd client_info .setsockopt).share.left < left) :
      Trade max_connections_ active_connections_ (.started fd client_info) ⟨1, 1, {fd}, left⟩ .over
  | called {n m left left' : Nat} {sockets : Multiset Int} {message : Bytes} (h : left' < left) :
      Trade max_connections_ active_connections_ (.called message) ⟨n, m, sockets, left⟩
        ⟨n, m, sockets, left'⟩

section
variable {config : Config} {active_connections_ : UInt64} {effect : Effect} {answer : Answer}

theorem run_trades {pc pc' : LoopPc}
    (h : Run config active_connections_ pc answer = some (effect, pc')) :
    Trade config.max_connections_ active_connections_ effect pc.share pc'.share := by
  unfold Run at h
  split at h
  · cases h
    exact .again _
  · cases h
    exact .again _
  · split at h
    · cases h
    · rename_i hfd
      cases h
      exact .accepted (Int.not_lt.mp hfd) (Nat.lt_succ_self _)
  · split at h
    · cases h
      exact .raised (.inl rfl) (by simp only [kMaxMessageSize]; omega)
    · rename_i hfull
      cases h
      exact .raised (.inr ⟨rfl, UInt64.not_le.mp hfull⟩) (Nat.lt_succ_self _)
  · cases h
    exact .internal (Nat.zero_le _) (by simp only [kMaxMessageSize]; omega)
  · cases h
    exact .internal (Nat.le_refl _) (Nat.lt_succ_self _)
  · cases h
    exact .started (Nat.lt_succ_self _)
  · cases h
    exact .internal (Nat.zero_le _) (by simp only [kMaxMessageSize]; omega)
  · cases h
    exact .lowered (Nat.lt_succ_self _)
  · cases h
    exact .closed (Nat.lt_succ_self _)
  · cases h
    exact .closed (Nat.lt_succ_self _)
  · cases h

end

def Handler.next (handler : Handler) : Option HandlerPc → Share
  | some pc => { handler with pc := pc }.share
  | none => .over

theorem internal_trade {max_connections_ active_connections_ : UInt64} (socket_fd : Int)
    (client_info : Bytes) {pc pc' : HandlerPc} (hpc : pc.sockets socket_fd = {socket_fd})
    (hpc' : pc'.sockets socket_fd = {socket_fd}) (h : pc'.left < pc.left) :
    Trade max_connections_ active_connections_ .internal (Handler.mk socket_fd client_info pc).share
      ((Handler.mk socket_fd client_info pc).next (some pc')) := by
  simp only [Handler.next, Handler.share, hpc, hpc']
  exact .internal (Nat.le_refl _) h

theorem afterRecv_place (expected_token_ client_info message : Bytes) (socket_fd : Int) :
    (afterRecv expected_token_ client_info message).sockets socket_fd = {socket_fd} ∧
      (afterRecv expected_token_ client_info message).left ≤ 3 := by
  unfold afterRecv
  split
  · exact ⟨rfl, by decide⟩
  · split
    · exact ⟨rfl, by decide⟩
    · exact ⟨rfl, Nat.le_refl _⟩

theorem recv_left (message : Bytes) : 3 < (HandlerPc.recv message).left := by
  rw [HandlerPc.left]
  omega

theorem handler_trades {expected_token_ : Bytes} {max_connections_ active_connections_ : UInt64}
    {handler : Handler} {effect : Effect} {answer : Answer} {pc' : Option HandlerPc}
    (hfd : ∀ fd ∈ handler.share.sockets, 0 ≤ fd)
    (h : HandleConnection expected_token_ handler.socket_fd handler.client_info handler.pc answer =
      some (effect, pc')) :
    Trade max_connections_ active_connections_ effect handler.share (handler.next pc') := by
  obtain ⟨socket_fd, client_info, pc⟩ := handler
  cases pc with
  | setsockopt =>
    cases answer with
    | ok =>
      cases h
      exact internal_trade _ _ rfl rfl (Nat.lt_succ_self _)
    | failed =>
      cases h
      exact internal_trade _ _ rfl rfl (by decide)
    | _ => cases h
  | recv message =>
    have hleft := recv_left message
    cases answer with
    | interrupted =>
      cases h
      exact .again _
    | failed =>
      cases h
      exact internal_trade _ _ rfl rfl (Nat.lt_of_succ_lt hleft)
    | data bytes =>
      simp only [HandleConnection] at h
      split at h
      · cases h
      · split at h
        · cases h
          obtain ⟨hplace, hrest⟩ := afterRecv_place expected_token_ client_info message socket_fd
          exact internal_trade _ _ rfl hplace (Nat.lt_of_le_of_lt hrest hleft)
        · rename_i hsome
          split at h
          · cases h
            exact internal_trade _ _ rfl rfl
              (Nat.lt_of_succ_lt hleft)
          · rename_i hfits
            cases h
            refine internal_trade _ _ rfl rfl ?_
            have hpos := List.length_pos_of_ne_nil hsome
            simp only [HandlerPc.left, List.length_append]
            omega
    | _ => cases h
  | callback_ message =>
    cases answer with
    | ok =>
      cases h
      exact .called (Nat.lt_succ_self _)
    | _ => cases h
  | close =>
    have hopen : 0 ≤ socket_fd := hfd socket_fd (Multiset.mem_singleton_self _)
    have hclosed : Trade max_connections_ active_connections_ (.closed socket_fd)
        (Handler.mk socket_fd client_info .close).share
        (Handler.mk socket_fd client_info .fetch_sub).share :=
      .closed (Nat.lt_succ_self _)
    cases answer with
    | ok =>
      rw [HandleConnection, if_pos hopen] at h
      cases h
      exact hclosed
    | failed =>
      rw [HandleConnection, if_pos hopen] at h
      cases h
      exact hclosed
    | _ => cases h
  | fetch_sub =>
    cases answer with
    | ok =>
      cases h
      exact .lowered (Nat.lt_succ_self _)
    | _ => cases h

/-! ### The books of the server -/

section
variable {M : Type} [AddCommMonoid M] (f : Share → M)

def Server.total (s : Server) : M :=
  f s.loop.share + (s.handlers.map fun handler => f handler.share).sum

variable {s : Server} {handler : Handler} {k : Nat}

theorem total_split (hk : s.handlers[k]? = some handler) :
    s.total f = f handler.share + { s with handlers := s.handlers.eraseIdx k }.total f := by
  obtain ⟨hlt, rfl⟩ := List.getElem?_eq_some_iff.mp hk
  have hperm := (List.getElem_cons_eraseIdx_perm hlt).map fun handler => f handler.share
  unfold Server.total
  rw [← hperm.sum_eq, List.map_cons, List.sum_cons, add_left_comm]

theorem total_goOn (hf : f .over = 0) (hk : s.handlers[k]? = some handler) (pc : Option HandlerPc) :
    { s with handlers := goOn s.handlers k handler pc }.total f =
      f (handler.next pc) + { s with handlers := s.handlers.eraseIdx k }.total f := by
  cases pc with
  | none =>
    rw [Handler.next, hf, zero_add]
    rfl
  | some pc =>
    obtain ⟨hlt, -⟩ := List.getElem?_eq_some_iff.mp hk
    have hperm := (List.set_perm_cons_eraseIdx hlt { handler with pc := pc }).map fun handler =>
      f handler.share
    unfold Server.total goOn Handler.next
    rw [hperm.sum_eq, List.map_cons, List.sum_cons, add_left_comm]

theorem total_started (s : Server) (handler : Handler) :
    { s with handlers := s.handlers ++ [handler] }.total f = f handler.share + s.total f := by
  unfold Server.total
  rw [List.map_append, List.sum_append, List.map_singleton, List.sum_singleton, ← add_assoc,
    add_comm]

end

theorem goOn_length (handlers : List Handler) (k : Nat) (handler : Handler)
    (pc : Option HandlerPc) : (goOn handlers k handler pc).length ≤ handlers.length := by
  cases pc with
  | none => exact List.length_eraseIdx_le ..
  | some pc => exact Nat.le_of_eq List.length_set

/-- A thread went on from `s` to `s₁`; what the step does to what is shared is still to come. -/
structure Moves (config : Config) (s s₁ : Server) (effect : Effect) (a a' : Share) : Prop where
  trade : Trade config.max_connections_ s.active_connections_ effect a a'
  counter : s₁.active_connections_ = s.active_connections_
  sockets : s₁.sockets = s.sockets
  fewer : s₁.handlers.length ≤ s.handlers.length
  totals : ∀ {M : Type} [AddCommMonoid M] (f : Share → M), f .over = 0 →
    ∃ rest, s.total f = f a + rest ∧ s₁.total f = f a' + rest

section
variable {config : Config} {s s₁ s' : Server} {input : Actor × Answer} {l : Label}
  {effect : Effect} {a a' : Share}

theorem next_moves (hfd : ∀ fd ∈ s.total Share.sockets, 0 ≤ fd)
    (h : s.next config input = some (l, s')) :
    ∃ effect a a' s₁, Moves config s s₁ effect a a' ∧ s₁.apply effect = some (l, s') := by
  obtain ⟨actor, answer⟩ := input
  cases actor with
  | loop =>
    obtain ⟨⟨effect, pc'⟩, hrun, happly⟩ := Option.bind_eq_some_iff.mp h
    refine ⟨effect, s.loop.share, pc'.share, _, ?_, happly⟩
    exact ⟨run_trades hrun, rfl, rfl, Nat.le_refl _, fun f _ => ⟨_, rfl, rfl⟩⟩
  | handler k =>
    obtain ⟨handler, hk, hstep⟩ := Option.bind_eq_some_iff.mp h
    obtain ⟨⟨effect, pc'⟩, hrun, happly⟩ := Option.bind_eq_some_iff.mp hstep
    have hown : ∀ fd ∈ handler.share.sockets, 0 ≤ fd := by
      intro fd hmem
      refine hfd fd ?_
      rw [total_split Share.sockets hk]
      exact Multiset.mem_add.mpr (.inl hmem)
    refine ⟨effect, handler.share, handler.next pc', _, ?_, happly⟩
    exact ⟨handler_trades hown hrun, rfl, rfl, goOn_length .., fun f hf =>
      ⟨_, total_split f hk, total_goOn f hf hk pc'⟩⟩

inductive Applied (s : Server) : Effect → Label → Server → Prop
  | again : Applied s .again .again s
  | internal : Applied s .internal .internal s
  | accepted {connection : Int} (hfree : s.sockets.entry connection = none) :
      Applied s (.accepted connection) (.accepted s.sockets.opened)
        { s with sockets := s.sockets.open connection }
  | raised : Applied s .raised .raised { s with active_connections_ := s.active_connections_ + 1 }
  | lowered :
      Applied s .lowered .lowered { s with active_connections_ := s.active_connections_ - 1 }
  | closed {connection : Int} : Applied s (.closed connection)
      (.closed (s.sockets.entry connection)) { s with sockets := s.sockets.close connection }
  | started {connection : Int} {client_info : Bytes} (hfits : Fits (s.handlers.length + 1)) :
      Applied s (.started connection client_info) .started
        { s with handlers := s.handlers ++ [⟨connection, client_info, .setsockopt⟩] }
  | called {message : Bytes} : Applied s (.called message) (.called message) s

theorem applied_of_apply (h : s.apply effect = some (l, s')) : Applied s effect l s' := by
  cases effect with
  | again =>
    cases h
    exact .again
  | internal =>
    cases h
    exact .internal
  | accepted connection =>
    simp only [Server.apply, Option.ite_none_right_eq_some, Option.some.injEq, Prod.mk.injEq] at h
    obtain ⟨hfree, rfl, rfl⟩ := h
    exact .accepted hfree
  | raised =>
    cases h
    exact .raised
  | lowered =>
    cases h
    exact .lowered
  | closed connection =>
    cases h
    exact .closed
  | started connection client_info =>
    simp only [Server.apply, Option.ite_none_right_eq_some, Option.some.injEq, Prod.mk.injEq] at h
    obtain ⟨hfits, rfl, rfl⟩ := h
    exact .started hfits
  | called message =>
    cases h
    exact .called

end

def Effect.begun : Effect → Share
  | .started connection client_info => (Handler.mk connection client_info .setsockopt).share
  | _ => .over

theorem total_applied {s s' : Server} {effect : Effect} {l : Label} (h : Applied s effect l s')
    {M : Type} [AddCommMonoid M] (f : Share → M) (hf : f .over = 0) :
    s'.total f = f effect.begun + s.total f := by
  cases h with
  | started hfits => exact total_started f ..
  | _ => exact ((congrArg (· + s.total f) hf).trans (zero_add _)).symm

/-! ### What every run keeps -/

def Label.connection? : Label → Option Nat
  | .accepted c => some c
  | _ => none

def Label.closed? : Label → Option (Option Nat)
  | .closed c => some c
  | _ => none

def Label.busy (l : Label) : Bool := decide (l ≠ .again)

structure Holds (config : Config) (log : List Label) (s : Server) : Prop where
  counter : s.active_connections_.toNat = s.total Share.counted
  room : s.total Share.admitted ≤ config.max_connections_.toNat
  fits : Fits s.handlers.length
  accepted : log.filterMap Label.connection? = List.range s.sockets.opened
  sockets : Descriptors.Accounted s.sockets (s.total Share.sockets) (log.filterMap Label.closed?)
  nonneg : ∀ fd ∈ s.total Share.sockets, 0 ≤ fd
  work : log.countP Label.busy + s.total Share.left ≤ perConnection * s.sockets.opened

section
variable {config : Config} {log : List Label} {s s₁ s' : Server} {l : Label} {effect : Effect}
  {a a' : Share}

theorem total_counted (s : Server) :
    s.total Share.counted = s.handlers.length + s.loop.share.counted := by
  unfold Server.total
  have hone : (s.handlers.map fun handler => handler.share.counted) =
      s.handlers.map fun _ => 1 := rfl
  rw [hone, List.map_const', List.sum_replicate_nat, Nat.mul_one, Nat.add_comm]

theorem total_admitted (s : Server) :
    s.total Share.admitted = s.handlers.length + s.loop.share.admitted := by
  unfold Server.total
  have hone : (s.handlers.map fun handler => handler.share.admitted) =
      s.handlers.map fun _ => 1 := rfl
  rw [hone, List.map_const', List.sum_replicate_nat, Nat.mul_one, Nat.add_comm]

theorem counted_le_one (pc : LoopPc) : pc.share.counted ≤ 1 := by
  cases pc <;> simp only [LoopPc.share, Share.over, Nat.zero_le, Nat.le_refl]

theorem admitted_le_counted (pc : LoopPc) : pc.share.admitted ≤ pc.share.counted := by
  cases pc <;> simp only [LoopPc.share, Share.over, Nat.zero_le, Nat.le_refl]

theorem holds_initial (config : Config) : Holds config [] initial where
  counter := rfl
  room := Nat.zero_le _
  fits := Nat.zero_le _
  accepted := rfl
  sockets := Descriptors.accounted_new
  nonneg := fun _ hmem => absurd hmem (Multiset.notMem_zero _)
  work := Nat.le_refl _

theorem step_total (hmoves : Moves config s s₁ effect a a') (happlied : Applied s₁ effect l s')
    {M : Type} [AddCommMonoid M] (f : Share → M) (hf : f .over = 0) :
    ∃ rest, s.total f = f a + rest ∧ s'.total f = f effect.begun + (f a' + rest) := by
  obtain ⟨rest, hs, hs₁⟩ := hmoves.totals f hf
  exact ⟨rest, hs, by rw [total_applied happlied f hf, hs₁]⟩

namespace Holds

/-- Far from the largest value. -/
theorem counter_lt (h : Holds config log s) : s.active_connections_.toNat + 1 < 2 ^ 64 := by
  have hcounted := total_counted s
  have hone := counted_le_one s.loop
  have hfits : s.handlers.length * bufferSize ≤ 2 ^ 64 := h.fits
  have hcounter := h.counter
  unfold bufferSize at hfits
  omega

theorem step_counter (h : Holds config log s) (hmoves : Moves config s s₁ effect a a')
    (happlied : Applied s₁ effect l s') :
    s'.active_connections_.toNat = s'.total Share.counted := by
  obtain ⟨rest, hs, hs'⟩ := step_total hmoves happlied Share.counted rfl
  have hcounter := h.counter
  have hlt := h.counter_lt
  have htrade := hmoves.trade
  rw [← hmoves.counter, hs] at hcounter
  rw [← hmoves.counter] at hlt
  rw [hs']
  cases happlied with
  | raised =>
    cases htrade
    simp only [UInt64.toNat_add, UInt64.toNat_one, Nat.mod_eq_of_lt hlt]
    simp only [Effect.begun, Share.over] at hcounter ⊢
    omega
  | lowered =>
    cases htrade
    have hle : (1 : UInt64) ≤ s₁.active_connections_ :=
      UInt64.le_iff_toNat_le.mpr (hcounter ▸ Nat.le_add_right 1 rest)
    simp only [UInt64.toNat_sub_of_le _ _ hle, UInt64.toNat_one]
    simp only [Effect.begun, Share.over] at hcounter ⊢
    omega
  | _ =>
    cases htrade
    simp only [Effect.begun, Share.over, Handler.share] at hcounter ⊢
    omega

theorem step_room (h : Holds config log s) (hmoves : Moves config s s₁ effect a a')
    (happlied : Applied s₁ effect l s') :
    s'.total Share.admitted ≤ config.max_connections_.toNat := by
  obtain ⟨rest, hs, hs'⟩ := step_total hmoves happlied Share.admitted rfl
  have hroom := h.room
  -- what `fetch_add` returns is no less than the number of the admitted
  have hwithin : s.total Share.admitted ≤ s.active_connections_.toNat := by
    rw [h.counter, total_admitted, total_counted]
    exact Nat.add_le_add_left (admitted_le_counted _) _
  rw [hs'] 
  rw [hs] at hroom hwithin
  cases hmoves.trade with
  | raised hm hless =>
    rcases hm with rfl | ⟨rfl, hbelow⟩
    · simp only [Effect.begun, Share.over] at hroom ⊢
      omega
    · have hbelow := UInt64.lt_iff_toNat_lt.mp hbelow
      simp only [Effect.begun, Share.over] at hwithin ⊢
      omega
  | _ =>
    simp only [Effect.begun, Share.over, Handler.share] at hroom ⊢
    omega

theorem step_fits (h : Holds config log s) (hmoves : Moves config s s₁ effect a a')
    (happlied : Applied s₁ effect l s') : Fits s'.handlers.length := by
  have hfewer : Fits s₁.handlers.length := (Nat.mul_le_mul_right _ hmoves.fewer).trans h.fits
  cases happlied with
  | started hfits =>
    rw [List.length_append]
    exact hfits
  | _ => exact hfewer

theorem step_accepted (h : Holds config log s) (hmoves : Moves config s s₁ effect a a')
    (happlied : Applied s₁ effect l s') :
    (log ++ [l]).filterMap Label.connection? = List.range s'.sockets.opened := by
  have hlog := h.accepted
  rw [← hmoves.sockets] at hlog
  rw [Transition.filterMap_snoc, hlog]
  cases happlied with
  | accepted hfree => exact List.range_succ.symm
  | _ => exact List.append_nil _

theorem step_sockets (h : Holds config log s) (hmoves : Moves config s s₁ effect a a')
    (happlied : Applied s₁ effect l s') :
    Descriptors.Accounted s'.sockets (s'.total Share.sockets)
      ((log ++ [l]).filterMap Label.closed?) := by
  obtain ⟨rest, hs, hs'⟩ := step_total hmoves happlied Share.sockets rfl
  have hledger := h.sockets
  have htrade := hmoves.trade
  rw [hs, ← hmoves.sockets] at hledger
  rw [hs', Transition.filterMap_snoc]
  cases happlied with
  | accepted hfree =>
    cases htrade
    simp only [Effect.begun, Share.over, Label.closed?, zero_add, Option.toList_none,
      List.append_nil] at hledger ⊢
    exact hledger.open hfree
  | closed =>
    cases htrade
    simp only [Effect.begun, Share.over, Label.closed?, zero_add, Option.toList_some] at hledger ⊢
    exact hledger.close
  | _ =>
    cases htrade
    simpa only [Effect.begun, Share.over, Handler.share, HandlerPc.sockets, Label.closed?,
      zero_add, Option.toList_none, List.append_nil] using hledger

theorem step_nonneg (h : Holds config log s) (hmoves : Moves config s s₁ effect a a')
    (happlied : Applied s₁ effect l s') : ∀ fd ∈ s'.total Share.sockets, 0 ≤ fd := by
  obtain ⟨rest, hs, hs'⟩ := step_total hmoves happlied Share.sockets rfl
  have hnonneg := h.nonneg
  rw [hs] at hnonneg
  rw [hs']
  intro fd hmem
  cases hmoves.trade with
  | accepted hfd hless =>
    simp only [Effect.begun, Share.over, zero_add, Multiset.mem_add, Multiset.mem_singleton] at hmem
    rcases hmem with rfl | hmem
    · exact hfd
    · exact hnonneg fd (Multiset.mem_add.mpr (.inr hmem))
  | closed hless =>
    simp only [Effect.begun, Share.over, zero_add] at hmem
    exact hnonneg fd (Multiset.mem_add.mpr (.inr hmem))
  | _ =>
    simp only [Effect.begun, Share.over, Handler.share, HandlerPc.sockets, zero_add] at hmem
    exact hnonneg fd hmem

theorem step_work (h : Holds config log s) (hmoves : Moves config s s₁ effect a a')
    (happlied : Applied s₁ effect l s') :
    (log ++ [l]).countP Label.busy + s'.total Share.left ≤ perConnection * s'.sockets.opened := by
  obtain ⟨rest, hs, hs'⟩ := step_total hmoves happlied Share.left rfl
  have hwork := h.work
  have htrade := hmoves.trade
  rw [hs, ← hmoves.sockets] at hwork
  rw [hs', List.countP_append, List.countP_singleton]
  cases happlied with
  | accepted hfree =>
    cases htrade with
    | accepted hfd hless =>
      simp only [Effect.begun, Share.over, Descriptors.Table.open, Nat.mul_succ, Label.busy, ne_eq,
        reduceCtorEq, not_false_eq_true, decide_true, if_true] at hwork ⊢
      omega
  | again =>
    cases htrade
    simpa only [Effect.begun, Share.over, Label.busy, ne_eq, not_true_eq_false, decide_false,
      Bool.false_eq_true, if_false, Nat.add_zero, Nat.zero_add] using hwork
  | started hfits =>
    cases htrade with
    | started hless =>
      simp only [Effect.begun, Share.over, Label.busy, ne_eq, reduceCtorEq, not_false_eq_true,
        decide_true, if_true] at hwork ⊢
      omega
  | _ =>
    cases htrade
    simp only [Effect.begun, Share.over, Descriptors.Table.close, Label.busy, ne_eq, reduceCtorEq,
      not_false_eq_true, decide_true, if_true] at hwork ⊢
    omega

end Holds

theorem holds_step (h : Holds config log s) (hstep : Step config s l s') :
    Holds config (log ++ [l]) s' := by
  obtain ⟨input, hnext⟩ := hstep
  obtain ⟨effect, a, a', s₁, hmoves, happly⟩ := next_moves h.nonneg hnext
  have happlied := applied_of_apply happly
  exact
    { counter := h.step_counter hmoves happlied
      room := h.step_room hmoves happlied
      fits := h.step_fits hmoves happlied
      accepted := h.step_accepted hmoves happlied
      sockets := h.step_sockets hmoves happlied
      nonneg := h.step_nonneg hmoves happlied
      work := h.step_work hmoves happlied }

theorem holds_run (h : Transition.Run (Step config) initial log s) : Holds config log s :=
  Transition.Run.invariant (fun _ _ _ _ hs hstep => holds_step hs hstep) h (holds_initial config)

/-! ### The counter and the sockets -/

/-- How many connections the accept loop has counted and not given to a thread or taken back. -/
def LoopPc.processing : LoopPc → Nat
  | .inet_ntop .. => 1
  | .thread .. => 1
  | .fetch_sub _ => 1
  | _ => 0

/-- The descriptors that some thread has still to close. -/
def Server.held (s : Server) : Multiset Int := s.total Share.sockets

theorem counted_eq (pc : LoopPc) : pc.share.counted = pc.processing := by
  cases pc <;> rfl

theorem counter_lowered (h : Holds config log s) {input : Actor × Answer}
    (hnext : s.next config input = some (.lowered, s')) :
    s'.active_connections_.toNat + 1 = s.active_connections_.toNat := by
  obtain ⟨effect, a, a', s₁, hmoves, happly⟩ := next_moves h.nonneg hnext
  have happlied := applied_of_apply happly
  obtain ⟨rest, hs, hs'⟩ := step_total hmoves happlied Share.counted rfl
  rw [h.counter, h.step_counter hmoves happlied, hs, hs']
  have htrade := hmoves.trade
  cases happlied
  cases htrade
  simp only [Effect.begun, Share.over]
  omega

theorem counter_raised (h : Holds config log s) {input : Actor × Answer}
    (hnext : s.next config input = some (.raised, s')) :
    s'.active_connections_.toNat = s.active_connections_.toNat + 1 := by
  obtain ⟨effect, a, a', s₁, hmoves, happly⟩ := next_moves h.nonneg hnext
  have happlied := applied_of_apply happly
  obtain ⟨rest, hs, hs'⟩ := step_total hmoves happlied Share.counted rfl
  rw [h.counter, h.step_counter hmoves happlied, hs, hs']
  have htrade := hmoves.trade
  cases happlied
  cases htrade
  simp only [Effect.begun, Share.over]
  omega

/-- What nothing in the way of the server can stop. -/
def Effect.Free : Effect → Prop
  | .again => False
  | .accepted _ => False
  | .started .. => False
  | _ => True

theorem apply_free (s : Server) (h : effect.Free) :
    ∃ l s', s.apply effect = some (l, s') ∧ l ≠ .again := by
  cases effect with
  | again => exact h.elim
  | accepted connection => exact h.elim
  | started connection client_info => exact h.elim
  | _ => exact ⟨_, _, rfl, nofun⟩

theorem handler_goes (expected_token_ : Bytes) (socket_fd : Int) (client_info : Bytes)
    (pc : HandlerPc) : ∃ answer effect pc',
      HandleConnection expected_token_ socket_fd client_info pc answer = some (effect, pc') ∧
        effect.Free := by
  cases pc with
  | setsockopt => exact ⟨.ok, _, _, rfl, trivial⟩
  | recv message => exact ⟨.failed, _, _, rfl, trivial⟩
  | callback_ message => exact ⟨.ok, _, _, rfl, trivial⟩
  | close =>
    refine ⟨.ok, _, _, rfl, ?_⟩
    split
    · trivial
    · trivial
  | fetch_sub => exact ⟨.ok, _, _, rfl, trivial⟩

theorem loop_goes (config : Config) (active_connections_ : UInt64) {pc : LoopPc}
    (hpc : pc ≠ .accept) : ∃ answer effect pc',
      Run config active_connections_ pc answer = some (effect, pc') ∧ effect.Free := by
  cases pc with
  | accept => exact absurd rfl hpc
  | fetch_add connection port =>
    by_cases hfull : active_connections_ ≥ config.max_connections_
    · exact ⟨.ok, _, _, if_pos hfull, trivial⟩
    · exact ⟨.ok, _, _, if_neg hfull, trivial⟩
  | inet_ntop connection port => exact ⟨.failed, _, _, rfl, trivial⟩
  | thread connection client_info => exact ⟨.failed, _, _, rfl, trivial⟩
  | fetch_sub connection => exact ⟨.ok, _, _, rfl, trivial⟩
  | close connection => exact ⟨.ok, _, _, rfl, trivial⟩

/-- A handler never waits for another thread. -/
theorem handler_enabled (config : Config) (s : Server) {k : Nat} (hk : k < s.handlers.length) :
    ∃ answer l s', s.next config (.handler k, answer) = some (l, s') ∧ l ≠ .again := by
  obtain ⟨answer, effect, pc', hgoes, hfree⟩ := handler_goes config.expected_token_
    s.handlers[k].socket_fd s.handlers[k].client_info s.handlers[k].pc
  obtain ⟨l, s', happly, hl⟩ :=
    apply_free { s with handlers := goOn s.handlers k s.handlers[k] pc' } hfree
  refine ⟨answer, l, s', ?_, hl⟩
  simp only [Server.next, List.getElem?_eq_getElem hk, Option.bind_some, hgoes, happly]

/-- Nor does the accept loop with a connection. -/
theorem loop_enabled (config : Config) (s : Server) (hpc : s.loop ≠ .accept) :
    ∃ answer l s', s.next config (.loop, answer) = some (l, s') ∧ l ≠ .again := by
  obtain ⟨answer, effect, pc', hgoes, hfree⟩ := loop_goes config s.active_connections_ hpc
  obtain ⟨l, s', happly, hl⟩ := apply_free { s with loop := pc' } hfree
  refine ⟨answer, l, s', ?_, hl⟩
  simp only [Server.next, hgoes, Option.bind_some, happly]

theorem mem_filterMap_closed {c : Option Nat} :
    c ∈ log.filterMap Label.closed? ↔ .closed c ∈ log := by
  rw [List.mem_filterMap]
  constructor
  · rintro ⟨l, hmem, hl⟩
    cases l with
    | closed c' =>
      cases hl
      exact hmem
    | _ => cases hl
  · exact fun hmem => ⟨_, hmem, rfl⟩

theorem count_closed (log : List Label) (c : Option Nat) :
    Multiset.count c (log.filterMap Label.closed?) = log.count (.closed c) := by
  induction log with
  | nil => rfl
  | cons l log ih =>
    cases l with
    | closed c' =>
      change Multiset.count c (c' ::ₘ (log.filterMap Label.closed? : Multiset (Option Nat))) = _
      rw [Multiset.count_cons, ih, List.count_cons]
      simp only [beq_iff_eq, Label.closed.injEq]
      rw [if_congr eq_comm rfl rfl]
    | _ =>
      refine ih.trans (List.count_cons_of_ne ?_).symm
      nofun

theorem mem_accepted (h : Holds config log s) {c : Nat} :
    .accepted c ∈ log ↔ c < s.sockets.opened := by
  rw [← List.mem_range, ← h.accepted, List.mem_filterMap]
  constructor
  · exact fun hmem => ⟨_, hmem, rfl⟩
  · rintro ⟨l, hmem, hl⟩
    cases l with
    | accepted c' =>
      cases hl
      exact hmem
    | _ => cases hl

/-- Over any run, the counter is the number of the handlers and of the connection that the accept
loop is processing, it moves by one at a time and never below zero, no more handlers than
`max_connections_` are alive, and an accepted connection is either held by one thread, which can
go on, or was closed once. -/
theorem connections_accounted (config : Config)
    (hrun : Transition.Run (Step config) initial log s) :
    s.active_connections_.toNat = s.handlers.length + s.loop.processing ∧
      (∀ input s', s.next config input = some (.raised, s') →
        s'.active_connections_.toNat = s.active_connections_.toNat + 1) ∧
      (∀ input s', s.next config input = some (.lowered, s') →
        s'.active_connections_.toNat + 1 = s.active_connections_.toNat) ∧
      s.handlers.length ≤ config.max_connections_.toNat ∧
      .closed none ∉ log ∧
      (∀ c, .accepted c ∈ log →
        log.count (.closed (some c)) + (s.held.map s.sockets.entry).count (some c) = 1) ∧
      (s.handlers = [] → s.loop = .accept →
        s.active_connections_ = 0 ∧ ∀ c, .accepted c ∈ log → log.count (.closed (some c)) = 1) ∧
      log.countP Label.busy ≤ perConnection * (log.filterMap Label.connection?).length ∧
      (∀ k < s.handlers.length,
        ∃ answer l s', s.next config (.handler k, answer) = some (l, s') ∧ l ≠ .again) ∧
      (s.loop ≠ .accept →
        ∃ answer l s', s.next config (.loop, answer) = some (l, s') ∧ l ≠ .again) := by
  have h := holds_run hrun
  have hcounter : s.active_connections_.toNat = s.handlers.length + s.loop.processing := by
    rw [h.counter, total_counted, counted_eq]
  have honce : ∀ c, .accepted c ∈ log →
      log.count (.closed (some c)) + (s.held.map s.sockets.entry).count (some c) = 1 := by
    intro c hc
    have hboth := h.sockets.once ((mem_accepted h).mp hc)
    rwa [count_closed] at hboth
  refine ⟨hcounter, fun _ _ => counter_raised h, fun _ _ => counter_lowered h, ?_, ?_, honce, ?_,
    ?_, fun _ => handler_enabled config s, loop_enabled config s⟩
  · have hroom := h.room
    rw [total_admitted] at hroom
    exact (Nat.le_add_right ..).trans hroom
  · exact fun hmem => h.sockets.none_not_closed (mem_filterMap_closed.mpr hmem)
  · intro hhandlers hloop
    rw [hhandlers, hloop] at hcounter
    refine ⟨UInt64.toNat_inj.mp hcounter, fun c hc => ?_⟩
    have hheld : s.held = 0 := by
      rw [Server.held, Server.total, hhandlers, hloop]
      rfl
    have hboth := honce c hc
    rwa [hheld] at hboth
  · rw [h.accepted, List.length_range]
    exact (Nat.le_add_right ..).trans h.work

end

/-! ### A recorded run -/

def sampleConfig : Config := ⟨lit "tok", 1, by decide⟩

def loops (answers : List Answer) : List (Actor × Answer) :=
  answers.map fun answer => (.loop, answer)

/-- A connection that gets a thread, one that is refused, one that is given the descriptor of the
first before that is counted out, and two for which a call fails. -/
def sampleInputs : List (Actor × Answer) :=
  loops [.interrupted, .connection 7 4000, .ok, .address (lit "10.0.0.7"), .ok] ++
    [(.handler 0, .ok), (.handler 0, .data (lit "tok\nhe"))] ++
    loops [.connection 8 4001, .ok, .ok, .failed] ++
    [(.handler 0, .interrupted), (.handler 0, .data []), (.handler 0, .ok), (.handler 0, .ok)] ++
    loops [.failed, .connection 7 4002, .ok] ++
    [(.handler 0, .ok)] ++
    loops [.ok, .ok, .connection 9 4003, .ok, .failed, .ok, .ok] ++
    loops [.connection 9 4004, .ok, .address (lit "10.0.0.7"), .failed, .ok, .ok]

theorem connections_accounted_sample : ∃ log s,
    Transition.Run (Step sampleConfig) initial log s ∧
      .called (lit "10.0.0.7:4000 he") ∈ log ∧
      s.active_connections_.toNat = s.handlers.length + s.loop.processing ∧
      s.active_connections_ = 0 ∧
      ∀ c ∈ List.range 5, log.count (.closed (some c)) = 1 := by
  have hplay : (Transition.Run.play (Server.next sampleConfig) initial sampleInputs).any
      (fun done => done.2.handlers.isEmpty && decide (done.2.loop = .accept) &&
        decide (.called (lit "10.0.0.7:4000 he") ∈ done.1) &&
        decide (∀ c ∈ List.range 5, .accepted c ∈ done.1)) = true := by
    decide +kernel
  obtain ⟨⟨log, s⟩, hplayed, hdone⟩ := (Option.any_eq_true _ _).mp hplay
  have hrun : Transition.Run (Step sampleConfig) initial log s :=
    Transition.Run.of_play (fun _ input _ _ hnext => ⟨input, hnext⟩) hplayed
  simp only [Bool.and_eq_true, decide_eq_true_eq, List.isEmpty_iff] at hdone
  obtain ⟨⟨⟨hhandlers, hloop⟩, hcalled⟩, haccepted⟩ := hdone
  obtain ⟨hcounter, -, -, -, -, -, hidle, -⟩ := connections_accounted sampleConfig hrun
  obtain ⟨hzero, hclosed⟩ := hidle hhandlers hloop
  exact ⟨log, s, hrun, hcalled, hcounter, hzero, fun c hc => hclosed c (haccepted c hc)⟩

end CloudStorage.TcpServer
