import Coev.Model.Core.IoContext
import Coev.ToMathlib.Transition

/-! # Nobody waits for a descriptor in vain
Each step keeps the queues to the calls that wait, the watchers to the queues and to the descriptor, and the record of
what was transferred to the calls that returned.
-/

namespace Coev.IoContext

open Transition

variable {s s' : IoContext} {e : Event} {j k : ℕ} {call : IoCall} {place old : IoPlace} {r : ℤ} {ks : List ℕ}

/-- A call is at a place. -/
abbrev At (s : IoContext) (k : ℕ) (call : IoCall) (place : IoPlace) : Prop := s.calls[k]? = some (call, place)

/-- The watcher for a direction is active. -/
def watches (s : IoContext) (writes : Bool) : Bool := if writes then s.m_write else s.m_read

/-! ## Places -/

private theorem at_goTo {p : IoPlace} :
    (s.goTo k place).At j call p ↔ if k = j then p = place ∧ ∃ q, s.At j call q else s.At j call p := by
  rw [At, goTo, List.getElem?_modify]
  split
  · cases at_ : s.calls[j]? with
    | none => simp [at_]
    | some c =>
      obtain ⟨call', q⟩ := c
      simp [at_, eq_comm, and_comm]
  · rw [id_map']

private theorem foldl_goTo (ks : List ℕ) (s : IoContext) : ks.foldl (fun s k => s.goTo k place) s =
    { s with calls := s.calls.mapIdx fun j c => if j ∈ ks then (c.1, place) else c } := by
  induction ks generalizing s with
  | nil =>
    have same : s.calls.mapIdx (fun _ c => c) = s.calls := List.ext_getElem? fun j => by simp
    simp [same]
  | cons k ks ih =>
    rw [List.foldl_cons, ih]
    congr 1
    apply List.ext_getElem?
    intro j
    simp only [goTo, List.getElem?_mapIdx, List.getElem?_modify, List.mem_cons]
    by_cases same : k = j
    · subst same
      cases s.calls[k]? <;> simp
    · cases s.calls[j]? <;> simp [same, Ne.symm same]

private theorem wait_eq : s.wait k call =
    { s.goTo k .waiting with
      m_r_waiter := if call.writes then s.m_r_waiter else s.m_r_waiter ++ [k]
      m_w_waiter := if call.writes then s.m_w_waiter ++ [k] else s.m_w_waiter } := by
  cases same : call.writes <;> simp [wait, setWaiter, waiter, goTo, same]

private theorem waiter_wait (writes : Bool) :
    (s.wait k call).waiter writes = if call.writes = writes then s.waiter writes ++ [k] else s.waiter writes := by
  rw [wait_eq]
  cases writes <;> cases same : call.writes <;> simp [waiter]

/-- A call leaves the queues for a place. -/
def leave (s : IoContext) (k : ℕ) (place : IoPlace) : IoContext :=
  { s with m_r_waiter := s.m_r_waiter.erase k, m_w_waiter := s.m_w_waiter.erase k }.goTo k place

private theorem waiter_leave (writes : Bool) : (s.leave k place).waiter writes = (s.waiter writes).erase k := by
  cases writes <;> rfl

/-! ## What is kept -/

/-- The queues hold the calls that wait, in their directions. -/
structure Queued (s : IoContext) : Prop where
  member : ∀ writes k, k ∈ s.waiter writes ↔ ∃ call, call.writes = writes ∧ s.At k call .waiting
  nodup : ∀ writes, (s.waiter writes).Nodup

/-- A call is in the block that the watcher for writing is for. -/
def InBlock (s : IoContext) (k : ℕ) : Prop :=
  ∃ call : IoCall, call.writes = true ∧ (s.At k call .waiting ∨ ∃ r, s.At k call (.woken r))

/-- The watcher for writing is active for a call that will stop it. -/
def Busy (s : IoContext) : Prop := s.m_write = true → ∃ k, s.InBlock k

/-- The watchers that are active. Before the descriptor is connected, nothing but one `connect` is under way. -/
structure Watched (s : IoContext) : Prop where
  closed : s.m_fd = invalid → ∀ writes, s.waiter writes = [] ∧ s.watches writes = false
  connected : s.connected = true → s.m_fd ≠ invalid → s.m_read = true
  waited : ∀ writes, s.waiter writes ≠ [] → s.watches writes = true
  connecting : s.connected = false → s.m_fd ≠ invalid → ∀ k call place, s.At k call place → place.underWay = true →
    call = .connect ∧ ∀ j call' place', s.At j call' place' → place'.underWay = true → j = k

/-- The record has what the calls returned, once for each. -/
structure Recorded (s : IoContext) : Prop where
  iff : ∀ k r, (k, r) ∈ s.transferred ↔ 0 < r ∧ ∃ call, call ≠ .connect ∧ s.At k call (.returned r)
  once : (s.transferred.map Prod.fst).Nodup
  woken : ∀ k call r, s.At k call (.woken r) → r ≤ 0

/-! ## Queues -/

namespace Queued

variable (queued : s.Queued)

include queued

theorem goTo (at_ : s.At k call old) (before : old ≠ .waiting) (after : place ≠ .waiting) : (s.goTo k place).Queued where
  member writes j := by
    have same := queued.member writes j
    simp only [at_goTo]
    change j ∈ s.waiter writes ↔ _
    grind
  nodup := queued.nodup

theorem wait (at_ : s.At k call old) (before : old ≠ .waiting) : (s.wait k call).Queued := by
  have outside : k ∉ s.waiter call.writes := by
    rw [queued.member]
    grind
  constructor
  · intro writes j
    have same := queued.member writes j
    rw [waiter_wait, wait_eq]
    change _ ↔ ∃ call, call.writes = writes ∧ (s.goTo k .waiting).At j call .waiting
    simp only [at_goTo]
    grind
  · intro writes
    rw [waiter_wait]
    have nodup := queued.nodup writes
    split
    · next same =>
      subst same
      exact List.nodup_append.mpr ⟨nodup, List.nodup_cons.mpr ⟨List.not_mem_nil, List.nodup_nil⟩, by grind⟩
    · exact nodup

theorem leave (after : place ≠ .waiting) : (s.leave k place).Queued := by
  constructor
  · intro writes j
    have same := queued.member writes j
    rw [waiter_leave, (queued.nodup writes).mem_erase_iff]
    simp only [IoContext.leave, at_goTo]
    grind
  · intro writes
    rw [waiter_leave]
    exact (queued.nodup writes).erase k

/-- Who is resumed leaves its queue. -/
theorem resume {writes : Bool} {rest : List ℕ} (front : s.waiter writes = k :: rest) :
    (∃ call, call.writes = writes ∧ s.At k call .waiting) ∧ s.resume writes = s.leave k (.woken 0) := by
  have mine : k ∈ s.waiter writes := by simp [front]
  obtain ⟨call, direction, at_⟩ := (queued.member writes k).mp mine
  have other : k ∉ s.waiter (!writes) := fun member => by
    obtain ⟨call', direction', at'⟩ := (queued.member _ k).mp member
    grind
  refine ⟨⟨call, direction, at_⟩, ?_⟩
  cases writes <;> simp [waiter] at front other <;>
    simp [IoContext.resume, IoContext.leave, waiter, setWaiter, front, List.erase_of_not_mem other]

private theorem at_close {p : IoPlace} (open_ : s.m_fd ≠ invalid) :
    s.close.At j call p ↔ ∃ q, s.At j call q ∧ p = if q = .waiting then .woken 0 else q := by
  have waits : j ∈ s.m_r_waiter ++ s.m_w_waiter ↔ ∃ call, s.At j call .waiting := by
    have reader := queued.member false j
    have writer := queued.member true j
    simp only [waiter, Bool.false_eq_true, if_true, if_false] at reader writer
    rw [List.mem_append]
    grind
  rw [At, IoContext.close, if_pos open_, foldl_goTo, List.getElem?_mapIdx]
  simp only [waits]
  cases at_ : s.calls[j]? <;> grind

theorem close : s.close.Queued := by
  by_cases open_ : s.m_fd = invalid
  · rw [IoContext.close, if_neg (not_not.mpr open_)]
    exact queued
  have queue writes : s.close.waiter writes = [] := by
    cases writes <;> simp [IoContext.close, open_, foldl_goTo, waiter]
  constructor
  · intro writes j
    rw [queue]
    simp only [queued.at_close open_]
    grind
  · intro writes
    rw [queue]
    exact List.nodup_nil

/-- The watcher for writing is stopped with the last call that waits for it. -/
private theorem busy_stopWrite : s.stopWrite.Busy := by
  intro active
  rw [stopWrite] at active ⊢
  split at active
  · cases active
  · next some_ =>
    rw [if_neg some_]
    obtain ⟨k, mine⟩ := List.exists_mem_of_ne_nil _ some_
    obtain ⟨call, writes, at_⟩ := (queued.member true k).mp mine
    exact ⟨k, call, writes, .inl at_⟩

theorem stopWrite : s.stopWrite.Queued := by
  rw [IoContext.stopWrite]
  split
  · exact ⟨queued.member, queued.nodup⟩
  · exact queued

theorem called (c : IoCall) : Queued { s with calls := s.calls ++ [(c, .running)] } where
  member writes j := by
    have same := queued.member writes j
    change j ∈ s.waiter writes ↔ _
    simp only [At, List.getElem?_append] at same ⊢
    grind
  nodup := queued.nodup

end Queued

/-! ## Watchers -/

namespace Watched

variable (watched : s.Watched)

include watched

theorem goTo (at_ : s.At k call old) (before : old.underWay = true) : (s.goTo k place).Watched where
  closed := watched.closed
  connected := watched.connected
  waited := watched.waited
  connecting := by
    have alone := watched.connecting
    simp only [at_goTo]
    intro fresh open_
    have alone := alone fresh open_
    grind

theorem wait (at_ : s.At k call old) (before : old.underWay = true) (open_ : s.m_fd ≠ invalid)
    (active : s.watches call.writes = true) : (s.wait k call).Watched := by
  have moved : (s.goTo k .waiting).Watched := watched.goTo at_ before
  have watches writes : (s.wait k call).watches writes = s.watches writes := by rw [wait_eq]; rfl
  constructor
  · intro closed
    rw [wait_eq] at closed
    exact absurd closed open_
  · rw [wait_eq]
    exact watched.connected
  · intro writes some_
    rw [watches]
    rw [waiter_wait] at some_
    split at some_
    · next same => exact same ▸ active
    · exact watched.waited writes some_
  · rw [wait_eq]
    exact moved.connecting

theorem leave (at_ : s.At k call .waiting) : (s.leave k place).Watched := by
  have moved : (s.goTo k place).Watched := watched.goTo at_ rfl
  constructor
  · intro closed writes
    rw [waiter_leave, (watched.closed closed writes).1]
    exact ⟨rfl, (watched.closed closed writes).2⟩
  · exact watched.connected
  · intro writes some_
    rw [waiter_leave] at some_
    apply watched.waited
    intro none_
    exact some_ (by rw [none_]; rfl)
  · exact moved.connecting

/-- One more watcher is active. -/
theorem activate (open_ : s.m_fd ≠ invalid) (read write : Bool) :
    Watched { s with m_read := s.m_read || read, m_write := s.m_write || write } where
  closed closed := absurd closed open_
  connected fresh _ := by simp [watched.connected fresh open_]
  waited writes some_ := by
    have active := watched.waited writes some_
    cases writes <;> simp_all [watches]
  connecting := watched.connecting

theorem initial (at_ : s.At k .connect old) (before : old.underWay = true) : (s.initial.goTo k place).Watched := by
  rw [IoContext.initial]
  split
  · next open_ =>
    have moved : (s.goTo k place).Watched := watched.goTo at_ before
    exact ⟨fun closed => absurd closed open_, fun _ _ => rfl, fun writes some_ => by
      have active := moved.waited writes some_
      cases writes with
      | false => rfl
      | true => exact active, fun fresh => by cases fresh⟩
  · exact watched.goTo at_ before

theorem stopWrite : s.stopWrite.Watched := by
  rw [IoContext.stopWrite]
  split
  · next none_ =>
    exact ⟨fun closed writes => ⟨(watched.closed closed writes).1, by
      have idle := (watched.closed closed writes).2
      cases writes with
      | false => exact idle
      | true => rfl⟩, watched.connected, fun writes some_ => by
      have active := watched.waited writes some_
      cases writes with
      | false => exact active
      | true => exact absurd none_ some_, watched.connecting⟩
  · exact watched

theorem close : s.close.Watched := by
  by_cases open_ : s.m_fd = invalid
  · rw [IoContext.close, if_neg (not_not.mpr open_)]
    exact watched
  have closed : s.close.m_fd = invalid ∧ ∀ writes, s.close.waiter writes = [] ∧ s.close.watches writes = false := by
    rw [IoContext.close, if_pos open_, foldl_goTo]
    exact ⟨rfl, fun writes => by cases writes <;> exact ⟨rfl, rfl⟩⟩
  exact ⟨fun _ => closed.2, fun _ open_ => absurd closed.1 open_, fun writes some_ => absurd (closed.2 writes).1 some_,
    fun _ open_ => absurd closed.1 open_⟩

theorem called (c : IoCall) (ready : s.Ready c) : Watched { s with calls := s.calls ++ [(c, .running)] } where
  closed := watched.closed
  connected := watched.connected
  waited := watched.waited
  connecting fresh open_ := by
    change s.connected = false at fresh
    have allowed := ready.resolve_right open_
    split at allowed
    · next first =>
      simp only [At, allowed.2, List.nil_append]
      grind
    · exact absurd (fresh.symm.trans allowed) (by decide)

end Watched

/-! ## Blocks -/

namespace Busy

variable (busy : s.Busy)

include busy

theorem goTo (outside : ¬ s.InBlock k) : (s.goTo k place).Busy := by
  intro active
  obtain ⟨j, block⟩ := busy active
  have other : k ≠ j := by rintro rfl; exact outside block
  refine ⟨j, ?_⟩
  obtain ⟨c, writes, inside⟩ := block
  refine ⟨c, writes, ?_⟩
  simpa only [at_goTo, if_neg other] using inside

theorem wait (at_ : s.At k call .running) : (s.wait k call).Busy := by
  have outside : ¬ s.InBlock k := by rintro ⟨c, -, at' | ⟨r, at'⟩⟩ <;> grind
  have moved : (s.goTo k .waiting).Busy := busy.goTo outside
  rw [wait_eq]
  exact moved

/-- Who is resumed is still in its block. -/
theorem wake (at_ : s.At k call .waiting) : (s.leave k (.woken r)).Busy := by
  intro active
  obtain ⟨j, c, writes, inside⟩ := busy active
  refine ⟨j, c, writes, ?_⟩
  simp only [IoContext.leave, at_goTo]
  change _ ∨ ∃ r', if k = j then _ ∧ ∃ q, s.At j c q else s.At j c _
  grind

end Busy

/-! ## The record -/

namespace Recorded

variable (recorded : s.Recorded)

include recorded

theorem goTo (at_ : s.At k call old) (before : old.underWay = true)
    (after : ∀ r, place = .returned r → 0 < r → call = .connect) (woken : ∀ r, place = .woken r → r ≤ 0) :
    (s.goTo k place).Recorded where
  iff j r := by
    have same := recorded.iff j r
    change (j, r) ∈ s.transferred ↔ _
    simp only [at_goTo]
    have moved : old ≠ .returned r := by rintro rfl; cases before
    grind
  once := recorded.once
  woken j c r := by
    have same := recorded.woken j c r
    rw [at_goTo]
    grind

theorem transfer (at_ : s.At k call old) (before : old.underWay = true) (other : call ≠ .connect) :
    (s.transfer k r).Recorded := by
  have new (n : ℤ) : (k, n) ∉ s.transferred := fun member => by
    obtain ⟨-, c, -, at'⟩ := (recorded.iff k n).mp member
    have same : old = .returned n := by grind
    rw [same] at before
    cases before
  constructor
  · intro j n
    have same := recorded.iff j n
    have mine := new n
    have value : n = (if r = 0 then invalid else r) ∧ 0 < n ↔ n = r ∧ 0 < r := by
      simp only [invalid]
      split <;> omega
    change (j, n) ∈ (if 0 < r then s.transferred ++ [(k, r)] else s.transferred) ↔
      0 < n ∧ ∃ c, c ≠ .connect ∧ (s.goTo k (.returned (if r = 0 then invalid else r))).At j c (.returned n)
    by_cases mine_ : k = j
    · subst mine_
      simp only [at_goTo, if_pos, IoPlace.returned.injEq]
      grind
    · simp only [at_goTo, if_neg mine_]
      grind
  · have outside : k ∉ s.transferred.map Prod.fst := fun member => by
      obtain ⟨⟨_, n⟩, entry, rfl⟩ := List.mem_map.mp member
      exact new n entry
    change (List.map Prod.fst (if 0 < r then s.transferred ++ [(k, r)] else s.transferred)).Nodup
    split
    · rw [List.map_append, List.map_singleton]
      exact List.nodup_append.mpr ⟨recorded.once, List.nodup_cons.mpr ⟨List.not_mem_nil, List.nodup_nil⟩, by grind⟩
    · exact recorded.once
  · intro j c n
    have same := recorded.woken j c n
    change (s.goTo k (.returned _)).At j c (.woken n) → _
    rw [at_goTo]
    grind

theorem close (queued : s.Queued) : s.close.Recorded := by
  by_cases open_ : s.m_fd = invalid
  · rw [IoContext.close, if_neg (not_not.mpr open_)]
    exact recorded
  have same : s.close.transferred = s.transferred := by rw [IoContext.close, if_pos open_, foldl_goTo]
  constructor
  · intro j r
    have same' := recorded.iff j r
    rw [same]
    simp only [queued.at_close open_]
    grind
  · rw [same]
    exact recorded.once
  · intro j c r
    have same' := recorded.woken j c r
    rw [queued.at_close open_]
    grind

theorem called (c : IoCall) : Recorded { s with calls := s.calls ++ [(c, .running)] } where
  iff j r := by
    have same := recorded.iff j r
    simp only [At, List.getElem?_append] at same ⊢
    grind
  once := recorded.once
  woken j c' r := by
    have same := recorded.woken j c' r
    simp only [At, List.getElem?_append] at same ⊢
    grind

end Recorded

/-! ## Steps -/

structure Kept (s : IoContext) : Prop where
  queued : s.Queued
  watched : s.Watched
  busy : s.Busy
  recorded : s.Recorded

namespace Kept

variable (kept : s.Kept)

include kept

/-- A call that does not wait comes to another place, where it does not wait. -/
theorem goTo (at_ : s.At k call old) (before : old = .running ∨ ∃ r, old = .woken r) (outside : ¬ s.InBlock k)
    (after : place = .running ∨ ∃ r, place = .returned r ∧ (0 < r → call = .connect)) : (s.goTo k place).Kept := by
  have underWay : old.underWay = true := by rcases before with rfl | ⟨r, rfl⟩ <;> rfl
  exact ⟨kept.queued.goTo at_ (by grind) (by grind), kept.watched.goTo at_ underWay, kept.busy.goTo outside,
    kept.recorded.goTo at_ underWay (by grind) (by grind)⟩

theorem transfer (at_ : s.At k call old) (before : old = .running ∨ ∃ r, old = .woken r) (outside : ¬ s.InBlock k)
    (other : call ≠ .connect) : (s.transfer k r).Kept := by
  have underWay : old.underWay = true := by rcases before with rfl | ⟨r, rfl⟩ <;> rfl
  let place : IoPlace := .returned (if r = 0 then invalid else r)
  have queued : (s.goTo k place).Queued := kept.queued.goTo at_ (by grind) (by grind)
  have watched : (s.goTo k place).Watched := kept.watched.goTo at_ underWay
  have busy : (s.goTo k place).Busy := kept.busy.goTo outside
  exact ⟨⟨queued.member, queued.nodup⟩, ⟨watched.closed, watched.connected, watched.waited, watched.connecting⟩, busy,
    kept.recorded.transfer at_ underWay other⟩

theorem wait (at_ : s.At k call .running) (open_ : s.m_fd ≠ invalid) (active : s.watches call.writes = true) :
    (s.wait k call).Kept := by
  have recorded : (s.goTo k .waiting).Recorded := kept.recorded.goTo at_ rfl (by simp) (by simp)
  refine ⟨kept.queued.wait at_ (by simp), kept.watched.wait at_ rfl open_ active, kept.busy.wait at_, ?_⟩
  rw [wait_eq]
  exact ⟨recorded.iff, recorded.once, recorded.woken⟩

/-- A call that writes waits, and its watcher is started. -/
private theorem waitToWrite (at_ : s.At k call .running) (open_ : s.m_fd ≠ invalid) (writes : call.writes = true) :
    ({ s with m_write := true }.wait k call).Kept := by
  have queued : Queued { s with m_write := true } := ⟨kept.queued.member, kept.queued.nodup⟩
  have watched : Watched { s with m_write := true } := by simpa using kept.watched.activate open_ false true
  have recorded : (s.goTo k .waiting).Recorded := kept.recorded.goTo at_ rfl (by simp) (by simp)
  refine ⟨queued.wait at_ (by simp), watched.wait at_ rfl open_ (by rw [writes]; rfl), fun _ =>
    ⟨k, call, writes, .inl ?_⟩, ?_⟩
  · rw [wait_eq]
    exact at_goTo.mpr (by rw [if_pos rfl]; exact ⟨rfl, _, at_⟩)
  · rw [wait_eq]
    exact ⟨recorded.iff, recorded.once, recorded.woken⟩

theorem activate (open_ : s.m_fd ≠ invalid) : Kept { s with m_read := true } where
  queued := ⟨kept.queued.member, kept.queued.nodup⟩
  watched := by simpa using kept.watched.activate open_ true false
  busy := kept.busy
  recorded := ⟨kept.recorded.iff, kept.recorded.once, kept.recorded.woken⟩

theorem close : s.close.Kept where
  queued := kept.queued.close
  watched := kept.watched.close
  busy := by
    intro active
    by_cases open_ : s.m_fd = invalid
    · have same : s.close = s := by rw [IoContext.close, if_neg (not_not.mpr open_)]
      rw [same] at active ⊢
      exact kept.busy active
    · rw [IoContext.close, if_pos open_, foldl_goTo] at active
      cases active
  recorded := kept.recorded.close kept.queued

/-- A call that is resumed. -/
theorem wake (at_ : s.At k call .waiting) : (s.leave k (.woken 0)).Kept := by
  have recorded : (s.goTo k (.woken 0)).Recorded :=
    kept.recorded.goTo at_ rfl (by simp) (by rintro r ⟨⟩; exact Int.le_refl 0)
  exact ⟨kept.queued.leave (by simp), kept.watched.leave at_, kept.busy.wake at_,
    ⟨recorded.iff, recorded.once, recorded.woken⟩⟩

theorem resume (writes : Bool) : (s.resume writes).Kept := by
  cases front : s.waiter writes with
  | nil => simpa [IoContext.resume, front] using kept
  | cons k rest =>
    obtain ⟨⟨call, -, at_⟩, same⟩ := kept.queued.resume front
    exact same ▸ kept.wake at_

/-- The callback of `connect` leaves nobody in a queue, so the watchers may stop. -/
private theorem connectCallback (fresh : s.connected = false) (active : s.m_read = true) :
    Kept ({ s with m_read := false, m_write := false }.resume false) := by
  have open_ : s.m_fd ≠ invalid := fun closed => by
    have idle := (kept.watched.closed closed false).2
    exact absurd (active.symm.trans idle) (by decide)
  have resumed := kept.resume false
  have same :
      { s with m_read := false, m_write := false }.resume false =
        { s.resume false with m_read := false, m_write := false } ∧
      (s.resume false).connected = false ∧ (s.resume false).m_fd ≠ invalid := by
    simp only [IoContext.resume, waiter]
    split <;> exact ⟨rfl, fresh, open_⟩
  have alone := resumed.watched.connecting same.2.1 same.2.2
  have none_ writes : (s.resume false).waiter writes = [] := by
    refine List.eq_nil_iff_forall_not_mem.mpr fun j member => ?_
    obtain ⟨call, direction, at_⟩ := (resumed.queued.member writes j).mp member
    obtain ⟨rfl, unique⟩ := alone j call .waiting at_ rfl
    obtain rfl : false = writes := direction
    cases front : s.waiter false with
    | nil => simp [IoContext.resume, front] at member
    | cons k rest =>
      obtain ⟨⟨call, -, at'⟩, woken⟩ := kept.queued.resume front
      have woken_ : (s.resume false).At k call (.woken 0) := by
        rw [woken]
        exact at_goTo.mpr (by rw [if_pos rfl]; exact ⟨rfl, _, at'⟩)
      obtain rfl := unique k call _ woken_ rfl
      exact absurd (at_.symm.trans woken_) (by simp)
  rw [same.1]
  exact ⟨⟨resumed.queued.member, resumed.queued.nodup⟩, ⟨fun closed => absurd closed same.2.2,
    fun connected => absurd (same.2.1.symm.trans connected) (by decide), fun writes some_ => absurd (none_ writes) some_,
    resumed.watched.connecting⟩, (fun active => by cases active),
      ⟨resumed.recorded.iff, resumed.recorded.once, resumed.recorded.woken⟩⟩

omit kept in
theorem stopWrite (queued : s.Queued) (watched : s.Watched) (recorded : s.Recorded) : s.stopWrite.Kept := by
  refine ⟨queued.stopWrite, watched.stopWrite, queued.busy_stopWrite, ?_⟩
  rw [IoContext.stopWrite]
  split
  · exact ⟨recorded.iff, recorded.once, recorded.woken⟩
  · exact recorded

/-- A call is destroyed. -/
theorem destroy (at_ : s.At k call .waiting) : (s.destroy k call).Kept := by
  have moved : (s.goTo k .destroyed).Recorded := kept.recorded.goTo at_ rfl (by simp) (by simp)
  have recorded : (s.leave k .destroyed).Recorded := ⟨moved.iff, moved.once, moved.woken⟩
  have queued : (s.leave k .destroyed).Queued := kept.queued.leave (by simp)
  have watched : (s.leave k .destroyed).Watched := kept.watched.leave at_
  change Kept (if call.writes then (s.leave k .destroyed).stopWrite else s.leave k .destroyed)
  split
  · exact stopWrite queued watched recorded
  · next reads =>
    have outside : ¬ s.InBlock k := by rintro ⟨c, writes, at' | ⟨r, at'⟩⟩ <;> grind
    have busy : (s.goTo k .destroyed).Busy := kept.busy.goTo outside
    exact ⟨queued, watched, busy, recorded⟩

/-- A call that is not `connect` is under way only on a descriptor that is watched for reading. -/
theorem reads (at_ : s.At k call old) (before : old.underWay = true) (other : call ≠ .connect) (open_ : s.m_fd ≠ invalid) :
    s.m_read = true := by
  refine kept.watched.connected ?_ open_
  by_contra fresh
  exact other (kept.watched.connecting (eq_false_of_ne_true fresh) open_ k call old at_ before).1

private theorem closeAndReturn (at_ : s.At k .connect old) (before : old = .running ∨ ∃ r, old = .woken r) :
    (s.close.goTo k (.returned invalid)).Kept := by
  have same : s.close.At k .connect old := by
    by_cases open_ : s.m_fd = invalid
    · rwa [IoContext.close, if_neg (not_not.mpr open_)]
    · exact (kept.queued.at_close open_).mpr ⟨old, at_, by grind⟩
  have outside : ¬ s.close.InBlock k := by rintro ⟨c, writes, at' | ⟨r, at'⟩⟩ <;> grind [IoCall.writes]
  exact kept.close.goTo same before outside (.inr ⟨_, rfl, fun _ => rfl⟩)

theorem enter (at_ : s.At k call .running) (sys : SystemResult) : (s.enter k call sys).Kept := by
  have outside : ¬ s.InBlock k := by rintro ⟨c, -, at' | ⟨r, at'⟩⟩ <;> grind
  unfold IoContext.enter
  split
  · exact kept.goTo at_ (.inl rfl) outside (.inr ⟨_, rfl, fun positive => absurd positive (by decide)⟩)
  · next open_ =>
    split
    · exact (kept.activate open_).wait at_ open_ rfl
    · exact kept.closeAndReturn at_ (.inl rfl)
    · exact kept.waitToWrite at_ open_ rfl
    · exact kept.waitToWrite at_ open_ rfl
    · exact kept.transfer at_ (.inl rfl) outside (by simp)
    · exact kept.transfer at_ (.inl rfl) outside (by simp)
    · exact kept.wait at_ open_ (kept.reads at_ rfl (by simp) open_)
    · exact kept.wait at_ open_ (kept.reads at_ rfl (by simp) open_)

theorem proceed (at_ : s.At k call (.woken r)) (sys : SystemResult) : (s.proceed k call r sys).Kept := by
  have small := kept.recorded.woken k call r at_
  have leaves {place : IoPlace} (after : place = .running ∨ ∃ n, place = .returned n ∧ n ≤ 0) :
      (s.goTo k place).stopWrite.Kept :=
    stopWrite (kept.queued.goTo at_ (by simp) (by grind)) (kept.watched.goTo at_ rfl)
      (kept.recorded.goTo at_ rfl (by grind) (by grind))
  have outside (reads : call.writes = false) : ¬ s.InBlock k := by rintro ⟨c, writes, at' | ⟨n, at'⟩⟩ <;> grind
  cases call with
  | connect =>
    dsimp only [IoContext.proceed]
    split
    · exact kept.closeAndReturn at_ (.inr ⟨r, rfl⟩)
    · have queued : (s.goTo k (.returned s.m_fd)).Queued := kept.queued.goTo at_ (by simp) (by simp)
      have busy : (s.goTo k (.returned s.m_fd)).Busy := kept.busy.goTo (outside rfl)
      have recorded : (s.goTo k (.returned s.m_fd)).Recorded := kept.recorded.goTo at_ rfl (fun _ _ _ => rfl) (by simp)
      refine ⟨?_, kept.watched.initial at_ rfl, ?_, ?_⟩ <;> rw [IoContext.initial] <;> split
      · exact ⟨queued.member, queued.nodup⟩
      · exact queued
      · exact busy
      · exact busy
      · exact ⟨recorded.iff, recorded.once, recorded.woken⟩
      · exact recorded
  | send =>
    apply leaves
    split
    · exact .inr ⟨_, rfl, by decide⟩
    · exact .inl rfl
  | sendto => exact leaves (.inr ⟨r, rfl, small⟩)
  | recv | recvfrom =>
    dsimp only [IoContext.proceed]
    split
    · exact kept.goTo at_ (.inr ⟨r, rfl⟩) (outside rfl) (.inr ⟨_, rfl, by grind⟩)
    · cases s.system sys with
      | inprocess => exact kept.goTo at_ (.inr ⟨r, rfl⟩) (outside rfl) (.inl rfl)
      | value n => exact kept.transfer at_ (.inr ⟨r, rfl⟩) (outside rfl) (by simp)

/-- Every step keeps everything. -/
theorem step (taken : s.Step e s') : s'.Kept := by
  unfold Step IoContext.step at taken
  cases e with
  | call c =>
    obtain ⟨ready, same⟩ := Option.ite_none_right_eq_some.mp taken
    obtain rfl := Option.some.inj same
    refine ⟨kept.queued.called c, kept.watched.called c ready, fun active => ?_, kept.recorded.called c⟩
    obtain ⟨j, c', writes, inside⟩ := kept.busy active
    refine ⟨j, c', writes, ?_⟩
    simp only [At, List.getElem?_append] at inside ⊢
    grind
  | run k sys =>
    dsimp only at taken
    split at taken
    · next call at_ => exact Option.some.inj taken ▸ kept.enter at_ sys
    · next call r at_ => exact Option.some.inj taken ▸ kept.proceed at_ sys
    · cases taken
  | readable =>
    dsimp only at taken
    split at taken
    · cases taken
    · next active =>
      split at taken
      · exact Option.some.inj taken ▸ kept.resume false
      · next fresh =>
        exact Option.some.inj taken ▸ kept.connectCallback (eq_false_of_ne_true fresh) (eq_true_of_ne_false active)
  | writable =>
    obtain ⟨-, same⟩ := Option.ite_none_right_eq_some.mp taken
    exact Option.some.inj same ▸ kept.resume true
  | close => exact Option.some.inj taken ▸ kept.close
  | destroy k =>
    dsimp only at taken
    split at taken
    · next call at_ => exact Option.some.inj taken ▸ kept.destroy at_
    · cases taken

end Kept

private theorem kept_fresh (fd : ℤ) : (fresh fd).Kept where
  queued :=
    ⟨fun writes k => by
      cases writes <;> simp [fresh, waiter, At], fun writes => by cases writes <;> exact List.nodup_nil⟩
  watched := ⟨fun _ writes => by cases writes <;> exact ⟨rfl, rfl⟩, (fun connected => by cases connected),
    fun writes some_ => absurd (by cases writes <;> rfl) some_, fun _ _ k call place at_ => by simp [fresh, At] at at_⟩
  busy active := by cases active
  recorded := ⟨fun k r => by simp [fresh], List.nodup_nil, fun k call r at_ => by simp [fresh, At] at at_⟩

private theorem kept_accepted (fd : ℤ) : (accepted fd).Kept := by
  have start := kept_fresh fd
  rw [accepted, initial]
  split
  · next open_ =>
    exact ⟨⟨start.queued.member, start.queued.nodup⟩, ⟨fun closed => absurd closed open_, fun _ _ => rfl,
      fun writes some_ => absurd (by cases writes <;> rfl) some_, fun fresh => by cases fresh⟩,
        (fun active => by cases active),
      ⟨start.recorded.iff, start.recorded.once, start.recorded.woken⟩⟩
  · exact start

/-! ## A closed descriptor -/

/-- A closed descriptor stays closed, and takes and gives nothing. -/
def Silent (s s' : IoContext) : Prop := s'.m_fd = invalid ∧ s'.transferred = s.transferred

private theorem silent_resume (closed : s.m_fd = invalid) (writes : Bool) : Silent s (s.resume writes) := by
  unfold resume
  split
  · exact ⟨closed, rfl⟩
  · cases writes <;> exact ⟨closed, rfl⟩

private theorem silent_stopWrite (closed : s.m_fd = invalid) : Silent s s.stopWrite := by
  unfold stopWrite
  split <;> exact ⟨closed, rfl⟩

private theorem close_of_closed (closed : s.m_fd = invalid) : s.close = s := by rw [close, if_neg (not_not.mpr closed)]

/-- Who goes on finds that the descriptor was closed. -/
private theorem silent_proceed (closed : s.m_fd = invalid) (sys : SystemResult) : Silent s (s.proceed k call r sys) := by
  have system : s.system sys = .value invalid := if_pos closed
  unfold proceed
  cases call with
  | connect =>
    dsimp only
    rw [system, if_pos (.inr (by decide)), close_of_closed closed]
    exact ⟨closed, rfl⟩
  | send | sendto => exact silent_stopWrite closed
  | recv | recvfrom =>
    dsimp only
    split
    · exact ⟨closed, rfl⟩
    · rw [system]
      exact ⟨closed, rfl⟩

private theorem silent_step (closed : s.m_fd = invalid) (taken : s.Step e s') : Silent s s' := by
  unfold Step IoContext.step at taken
  cases e with
  | call c =>
    obtain ⟨-, same⟩ := Option.ite_none_right_eq_some.mp taken
    exact Option.some.inj same ▸ ⟨closed, rfl⟩
  | run k sys =>
    dsimp only at taken
    split at taken
    · obtain rfl := Option.some.inj taken
      unfold enter
      rw [if_pos closed]
      exact ⟨closed, rfl⟩
    · exact Option.some.inj taken ▸ silent_proceed closed sys
    · cases taken
  | readable =>
    dsimp only at taken
    split at taken
    · cases taken
    · split at taken
      · exact Option.some.inj taken ▸ silent_resume closed false
      · exact Option.some.inj taken ▸ silent_resume (s := { s with m_read := false, m_write := false }) closed false
  | writable =>
    obtain ⟨-, same⟩ := Option.ite_none_right_eq_some.mp taken
    exact Option.some.inj same ▸ silent_resume closed true
  | close =>
    obtain rfl := Option.some.inj taken
    exact (close_of_closed closed).symm ▸ ⟨closed, rfl⟩
  | destroy k =>
    dsimp only at taken
    split at taken
    · obtain rfl := Option.some.inj taken
      unfold destroy
      dsimp only
      split
      · exact silent_stopWrite (s := { s with m_r_waiter := _, m_w_waiter := _ }.goTo k .destroyed) closed
      · exact ⟨closed, rfl⟩
    · cases taken

/-- A call waits only on a descriptor that is open, in the queue for its direction and with the watcher for that direction
active; the watcher for writing is active only for a call that is still in its block; the record has exactly what the
calls returned, so nothing is transferred for a call that still waits or was destroyed; and nothing is once the descriptor
was closed. -/
structure Attended (s : IoContext) : Prop where
  watched : ∀ k call, s.At k call .waiting → s.m_fd ≠ invalid ∧ k ∈ s.waiter call.writes ∧ s.watches call.writes = true
  idle : s.m_write = true → ∃ k, s.InBlock k
  transferred : ∀ k r, (k, r) ∈ s.transferred ↔ 0 < r ∧ ∃ call, call ≠ .connect ∧ s.At k call (.returned r)
  once : (s.transferred.map Prod.fst).Nodup
  silent : s.m_fd = invalid → ∀ e s', s.Step e s' → s.Silent s'

/-- Whatever is called, resumed, closed or destroyed in whatever order, nobody waits in vain. -/
theorem attended {fd : ℤ} {start : IoContext} (constructed : start = fresh fd ∨ start = accepted fd)
    (run : Reaches Step start s) : s.Attended := by
  have kept : s.Kept := by
    refine run.invariant (fun s e t kept taken => Kept.step kept taken) ?_
    rcases constructed with rfl | rfl
    · exact kept_fresh fd
    · exact kept_accepted fd
  refine ⟨fun k call at_ => ?_, kept.busy, kept.recorded.iff, kept.recorded.once, fun closed _ _ => silent_step closed⟩
  have member : k ∈ s.waiter call.writes := (kept.queued.member _ k).mpr ⟨call, rfl, at_⟩
  have some_ : s.waiter call.writes ≠ [] := List.ne_nil_of_mem member
  exact ⟨fun closed => some_ (kept.watched.closed closed _).1, member, kept.watched.waited _ some_⟩

/-- A `send` waits, is woken and sends three bytes; another one waits. The descriptor is closed while a `recv` waits
too, which returns an error whatever the system would have given. -/
theorem attended_sent :
    Attended { m_fd := 5, connected := true, m_read := true, m_write := true, m_w_waiter := [1], transferred := [(0, 3)]
               calls := [(.send, .returned 3), (.send, .waiting)] } ∧
      Attended { m_fd := -1, connected := true, transferred := [(0, 3)]
                 calls := [(.send, .returned 3), (.send, .woken 0), (.recv, .returned (-1))] } := by
  let events : List Event :=
    [.call .send, .run 0 .inprocess, .writable, .run 0 .inprocess, .run 0 (.value 3), .call .send, .run 1 .inprocess]
  let closing : List Event := [.call .recv, .run 2 .inprocess, .close, .run 2 (.value 7)]
  have open_ : Reaches (When (fun _ _ => True) Step) (accepted 5) _ := Reaches.of_foldlM events rfl
  have closed : Reaches (When (fun _ _ => True) Step) (accepted 5) _ := Reaches.of_foldlM (events ++ closing) rfl
  exact ⟨attended (.inr rfl) open_.of_when, attended (.inr rfl) closed.of_when⟩

end Coev.IoContext
