import Coev.Model.Zookeeper.Transaction
import Coev.Proofs.Zookeeper.Archive
import Mathlib.Data.List.TakeWhile

/-! # All of a transaction or nothing

The result of the path check replaces the code of the steps before it, an operation without a case leaves its header alone,
and the request is sent whatever the code is. So nothing holds a faulty transaction back. Of a sound one all is sent, except
that data end at a null byte and that a check loses its version.
-/

namespace Coev.Zookeeper

variable {ops : List ZooOp} {chroot : Bytes}

namespace ZooOp

/-- The loop has a case for the operation. -/
def Supported (op : ZooOp) : Prop :=
  op.type ∈ [ZOO_CREATE_CONTAINER_OP, ZOO_CREATE_OP, ZOO_DELETE_OP, ZOO_SETDATA_OP, ZOO_CHECK_OP]

def Accepted (chroot : Bytes) (op : ZooOp) : Prop := op.Supported ∧ isValidPath (pathString chroot op.path) 0 = true

/-- The request of an operation. -/
def request (chroot : Bytes) (op : ZooOp) : Bytes :=
  let path := pathString chroot op.path
  if op.type = ZOO_CREATE_CONTAINER_OP ∨ op.type = ZOO_CREATE_OP then
    Proto.CreateRequest.serialize (path, op.data, op.acl, op.flags, ())
  else if op.type = ZOO_DELETE_OP then Proto.DeleteRequest.serialize (path, op.version, ())
  else if op.type = ZOO_SETDATA_OP then Proto.SetDataRequest.serialize (path, op.data, op.version, ())
  else if op.type = ZOO_CHECK_OP then Proto.CheckVersionRequest.serialize (path, op.version, ())
  else []

/-- The header and the request of an operation. -/
def part (chroot : Bytes) (op : ZooOp) : Bytes := multiHeader op.type 0 (-1) ++ op.request chroot

private theorem length_cString_le (bytes : Bytes) : (cString bytes).length ≤ bytes.length :=
  (List.takeWhile_prefix _).length_le

/-- What the loop makes of an operation. -/
def written (op : ZooOp) : ZooOp :=
  { op with
    data := cString op.data
    version := if op.type = ZOO_CHECK_OP then 0 else op.version
    datalen := (length_cString_le op.data).trans_lt op.datalen }

/-- Nothing of the operation is lost: data that are sent have no null byte, and a check asks for version 0. -/
def Intact (op : ZooOp) : Prop :=
  (op.type ∈ [ZOO_CREATE_CONTAINER_OP, ZOO_CREATE_OP, ZOO_SETDATA_OP] → (0 : UInt8) ∉ op.data) ∧
    (op.type = ZOO_CHECK_OP → op.version = 0)

end ZooOp

/-- The request of a transaction: the header and the request of each operation, in their order, and the end marker. -/
def transaction (xid : Int32) (chroot : Bytes) (ops : List ZooOp) : Bytes :=
  Proto.RequestHeader.serialize (xid, ZOO_MULTI_OP, ()) ++ ops.flatMap (ZooOp.part chroot) ++ multiHeader (-1) 1 (-1)

/-- With a faulty operation nothing is sent and an error is returned; without one the whole request is sent. -/
structure AllOrNothing (xid : Int32) (chroot : Bytes) (ops : List ZooOp) : Prop where
  nothing : (∃ op ∈ ops, ¬op.Accepted chroot) → ∀ connection,
    (multi connection xid chroot ops).1 = [] ∧ (multi connection xid chroot ops).2 < 0
  all : (∀ op ∈ ops, op.Accepted chroot) → ∀ connection,
    (multi connection xid chroot ops).1 = (send connection (transaction xid chroot ops)).1

/-! ## What the loop writes -/

theorem Writing.put_of_fine {s : Writing} (fine : s.r = 0) (record : Bytes) : s.put record = ⟨s.buff ++ record, 0⟩ := by
  rw [put, if_neg (by rw [fine]; decide)]

theorem Writing.putRequest_of_valid {chroot path : Bytes} (valid : isValidPath (pathString chroot path) 0 = true)
    (request : Bytes → Bytes) (s : Writing) :
    s.putRequest chroot path request = ⟨s.buff ++ request (pathString chroot path), 0⟩ := by
  have code : (pathInit chroot path).2 = 0 := by rw [pathInit, if_pos valid]
  exact put_of_fine code _

private theorem multiOp_of_accepted {op : ZooOp} (accepted : op.Accepted chroot) {s : Writing} (fine : s.r = 0) :
    multiOp chroot s op = ⟨s.buff ++ op.written.part chroot, 0⟩ := by
  obtain ⟨supported, valid⟩ := accepted
  have sent (request : Bytes → Bytes) : (s.put (multiHeader op.type 0 (-1))).putRequest chroot op.path request =
      ⟨s.buff ++ (multiHeader op.type 0 (-1) ++ request (pathString chroot op.path)), 0⟩ := by
    rw [Writing.putRequest_of_valid valid, Writing.put_of_fine fine, List.append_assoc]
  obtain ⟨type, path, data, acl, flags, version, datalen⟩ := op
  simp only [ZooOp.Supported, List.mem_cons, List.not_mem_nil, or_false] at supported
  rcases supported with rfl | rfl | rfl | rfl | rfl
  · exact sent fun path => Proto.CreateRequest.serialize (path, cString data, acl, flags, ())
  · exact sent fun path => Proto.CreateRequest.serialize (path, cString data, acl, flags, ())
  · exact sent fun path => Proto.DeleteRequest.serialize (path, version, ())
  · exact sent fun path => Proto.SetDataRequest.serialize (path, cString data, version, ())
  · exact sent fun path => Proto.CheckVersionRequest.serialize (path, (0 : Int32), ())

private theorem loop_of_accepted (accepted : ∀ op ∈ ops, op.Accepted chroot) {s : Writing} (fine : s.r = 0) :
    ops.foldl (multiOp chroot) s = ⟨s.buff ++ (ops.map ZooOp.written).flatMap (ZooOp.part chroot), 0⟩ := by
  induction ops generalizing s with
  | nil =>
    obtain ⟨buff, r⟩ := s
    obtain rfl : r = 0 := fine
    simp
  | cons op ops ih =>
    obtain ⟨first, rest⟩ := List.forall_mem_cons.mp accepted
    rw [List.foldl_cons, multiOp_of_accepted first fine, ih rest rfl, List.map_cons, List.flatMap_cons, List.append_assoc]

private theorem multi_of_accepted (accepted : ∀ op ∈ ops, op.Accepted chroot) (connection : Bytes → Int32) (xid : Int32) :
    (multi connection xid chroot ops).1 = (send connection (transaction xid chroot (ops.map ZooOp.written))).1 := by
  have opened : Writing.put (Proto.RequestHeader.serialize (xid, ZOO_MULTI_OP, ())) {} =
      ⟨Proto.RequestHeader.serialize (xid, ZOO_MULTI_OP, ()), 0⟩ := Writing.put_of_fine rfl _
  rw [multi, opened, loop_of_accepted accepted rfl, Writing.put_of_fine rfl]
  rfl

/-! ## Nothing is held back -/

theorem Writing.buff_prefix_put (record : Bytes) (s : Writing) : s.buff <+: (s.put record).buff := by
  rw [put]
  split
  · exact List.prefix_rfl
  · exact List.prefix_append _ _

theorem Writing.buff_prefix_putRequest (chroot path : Bytes) (request : Bytes → Bytes) (s : Writing) :
    s.buff <+: (s.putRequest chroot path request).buff := buff_prefix_put _ { s with r := (pathInit chroot path).2 }

private theorem buff_prefix_multiOp (chroot : Bytes) (s : Writing) (op : ZooOp) : s.buff <+: (multiOp chroot s op).buff := by
  have header := Writing.buff_prefix_put (multiHeader op.type 0 (-1)) s
  unfold multiOp
  dsimp only
  split_ifs
  · exact header.trans (Writing.buff_prefix_putRequest _ _ _ _)
  · exact header.trans (Writing.buff_prefix_putRequest _ _ _ _)
  · exact header.trans (Writing.buff_prefix_putRequest _ _ _ _)
  · exact header.trans (Writing.buff_prefix_putRequest _ _ _ _)
  · exact header

private theorem buff_prefix_loop (chroot : Bytes) (ops : List ZooOp) (s : Writing) :
    s.buff <+: (ops.foldl (multiOp chroot) s).buff := by
  induction ops generalizing s with
  | nil => exact List.prefix_rfl
  | cons op ops ih => exact (buff_prefix_multiOp chroot s op).trans (ih _)

private theorem send_ne_nil {request : Bytes} (nonempty : request ≠ []) (connection : Bytes → Int32) :
    (send connection request).1 ≠ [] := by
  rw [send, if_neg nonempty]
  dsimp only
  split <;> exact List.cons_ne_nil _ _

/-- Whatever the operations are, something is sent. -/
theorem multi_ne_nil (connection : Bytes → Int32) (xid : Int32) (chroot : Bytes) (ops : List ZooOp) :
    (multi connection xid chroot ops).1 ≠ [] := by
  have opened : Writing.put (Proto.RequestHeader.serialize (xid, ZOO_MULTI_OP, ())) {} =
      ⟨Proto.RequestHeader.serialize (xid, ZOO_MULTI_OP, ()), 0⟩ := Writing.put_of_fine rfl _
  rw [multi, opened]
  refine send_ne_nil (fun empty => ?_) connection
  have grown := (buff_prefix_loop chroot ops ⟨Proto.RequestHeader.serialize (xid, ZOO_MULTI_OP, ()), 0⟩).trans
    (Writing.buff_prefix_put (multiHeader (-1) 1 (-1)) _)
  rw [empty, List.prefix_nil] at grown
  have size : (Proto.RequestHeader.serialize (xid, ZOO_MULTI_OP, ())).length = 8 := rfl
  rw [show Proto.RequestHeader.serialize (xid, ZOO_MULTI_OP, ()) = [] from grown] at size
  exact absurd size (by decide)

/-! ## What is lost of an operation -/

private theorem serializeInt_append_inj {d e : Int32} {x y : Bytes} (same : serializeInt d ++ x = serializeInt e ++ y) :
    d = e ∧ x = y := by
  have read := congrArg deserializeInt same
  rw [deserializeInt_append, deserializeInt_append] at read
  exact Prod.mk.inj (Except.ok.inj read)

private theorem ofNat_length_ne {s : Bytes} (small : s.length < 2 ^ 31) : Int32.ofNat s.length ≠ -1 := by
  intro same
  have value := congrArg Int32.toInt same
  rw [toInt_ofNat_of_lt small] at value
  exact absurd (value.symm.trans_ge (Int.natCast_nonneg _)) (by decide)

private theorem serializeString_append_inj {s t x y : Bytes} (left : s.length < 2 ^ 31) (right : t.length < 2 ^ 31)
    (same : serializeString s ++ x = serializeString t ++ y) : s = t ∧ x = y := by
  by_cases noS : s = []
  · by_cases noT : t = []
    · rw [serializeString, serializeString, if_pos noS, if_pos noT] at same
      exact ⟨noS.trans noT.symm, (serializeInt_append_inj same).2⟩
    · rw [serializeString, serializeString, if_pos noS, if_neg noT, List.append_assoc] at same
      exact absurd (serializeInt_append_inj same).1.symm (ofNat_length_ne right)
  · by_cases noT : t = []
    · rw [serializeString, serializeString, if_neg noS, if_pos noT, List.append_assoc] at same
      exact absurd (serializeInt_append_inj same).1 (ofNat_length_ne left)
    · rw [serializeString, serializeString, if_neg noS, if_neg noT, List.append_assoc, List.append_assoc] at same
      obtain ⟨counts, rest⟩ := serializeInt_append_inj same
      have lengths := congrArg Int32.toInt counts
      rw [toInt_ofNat_of_lt left, toInt_ofNat_of_lt right, Int.natCast_inj] at lengths
      exact List.append_inj rest lengths

private theorem cString_eq_iff {bytes : Bytes} : cString bytes = bytes ↔ (0 : UInt8) ∉ bytes := by
  rw [cString, List.takeWhile_eq_self_iff]
  constructor
  · exact fun all member => absurd (all 0 member) (by decide)
  · exact fun absent c member => decide_eq_true fun zero => absent (zero ▸ member)

/-- A string between what both sides share is read back. -/
theorem string_between_iff {front s t back x y : Bytes} (left : s.length < 2 ^ 31) (right : t.length < 2 ^ 31) :
    front ++ (serializeString s ++ back) ++ x = front ++ (serializeString t ++ back) ++ y ↔ s = t ∧ x = y := by
  simp only [List.append_assoc, List.append_cancel_left_eq]
  constructor
  · intro same
    obtain ⟨strings, rest⟩ := serializeString_append_inj left right same
    exact ⟨strings, List.append_cancel_left rest⟩
  · rintro ⟨rfl, rfl⟩
    rfl

private theorem int_behind_iff {front x y : Bytes} {d e : Int32} :
    front ++ (serializeInt d ++ []) ++ x = front ++ (serializeInt e ++ []) ++ y ↔ d = e ∧ x = y := by
  simp only [List.append_nil, List.append_assoc, List.append_cancel_left_eq]
  constructor
  · exact serializeInt_append_inj
  · rintro ⟨rfl, rfl⟩
    rfl

theorem ZooOp.intact_of_data {op : ZooOp} (type : Int32) (same : op.type = type)
    (sent : type ∈ [ZOO_CREATE_CONTAINER_OP, ZOO_CREATE_OP, ZOO_SETDATA_OP]) :
    op.Intact ↔ cString op.data = op.data := by
  subst same
  rw [cString_eq_iff]
  refine ⟨fun intact => intact.1 sent, fun clean => ⟨fun _ => clean, fun check => ?_⟩⟩
  rw [check] at sent
  exact absurd sent (by decide)

/-- The written request, followed by anything, tells whether something was lost. -/
theorem part_append_iff (chroot : Bytes) {op : ZooOp} (supported : op.Supported) {x y : Bytes} :
    op.written.part chroot ++ x = op.part chroot ++ y ↔ op.Intact ∧ x = y := by
  have shorter : (cString op.data).length < 2 ^ 31 := (ZooOp.length_cString_le op.data).trans_lt op.datalen
  have headed : op.written.part chroot ++ x = op.part chroot ++ y ↔
      op.written.request chroot ++ x = op.request chroot ++ y := by
    rw [ZooOp.part, ZooOp.part, List.append_assoc, List.append_assoc]
    exact List.append_right_inj _
  rw [headed]
  have data := @ZooOp.intact_of_data op
  obtain ⟨type, path, value, acl, flags, version, datalen⟩ := op
  simp only [ZooOp.Supported, List.mem_cons, List.not_mem_nil, or_false] at supported
  rcases supported with rfl | rfl | rfl | rfl | rfl
  · rw [data ZOO_CREATE_CONTAINER_OP rfl (by decide)]
    exact string_between_iff shorter datalen
  · rw [data ZOO_CREATE_OP rfl (by decide)]
    exact string_between_iff shorter datalen
  · refine (List.append_right_inj _).trans (and_iff_right ⟨fun sent => ?_, fun check => ?_⟩).symm
    · exact absurd (show ZOO_DELETE_OP ∈ [ZOO_CREATE_CONTAINER_OP, ZOO_CREATE_OP, ZOO_SETDATA_OP] from sent) (by decide)
    · exact absurd (show ZOO_DELETE_OP = ZOO_CHECK_OP from check) (by decide)
  · rw [data ZOO_SETDATA_OP rfl (by decide)]
    exact string_between_iff shorter datalen
  · refine (int_behind_iff (d := (0 : Int32)) (e := version)).trans (and_congr_left fun _ => ?_)
    refine ⟨fun zero => ⟨fun sent => ?_, fun _ => zero.symm⟩, fun intact => (intact.2 rfl).symm⟩
    exact absurd (show ZOO_CHECK_OP ∈ [ZOO_CREATE_CONTAINER_OP, ZOO_CREATE_OP, ZOO_SETDATA_OP] from sent) (by decide)

private theorem parts_append_iff (chroot : Bytes) (supported : ∀ op ∈ ops, op.Supported) {x : Bytes} :
    (ops.map ZooOp.written).flatMap (ZooOp.part chroot) ++ x = ops.flatMap (ZooOp.part chroot) ++ x ↔
      ∀ op ∈ ops, op.Intact := by
  induction ops with
  | nil => exact iff_of_true rfl fun _ member => absurd member List.not_mem_nil
  | cons op ops ih =>
    obtain ⟨first, rest⟩ := List.forall_mem_cons.mp supported
    rw [List.map_cons, List.flatMap_cons, List.flatMap_cons, List.append_assoc, List.append_assoc,
      part_append_iff chroot first,
      ih rest, List.forall_mem_cons]

/-! ## All or nothing -/

/-- On a connection without faults the request is what follows its length. -/
theorem send_inj {x y : Bytes} (same : ∀ connection, (send connection x).1 = (send connection y).1) : x = y := by
  have sent := same fun _ => 0
  have quiet (request : Bytes) : (send (fun _ => 0) request).1 =
      if request = [] then [] else [serializeInt (Int32.ofNat request.length), request] := by
    rw [send]
    split
    · rfl
    · rw [if_neg (by decide)]
  rw [quiet, quiet] at sent
  split_ifs at sent with noX noY noY
  · exact noX.trans noY.symm
  · exact (List.cons.inj (List.cons.inj sent).2).1

/-- A transaction is all or nothing when each of its operations has a case, a path that is accepted, data without a null
byte and, where it is a check, version 0. -/
theorem allOrNothing_iff (xid : Int32) (chroot : Bytes) (ops : List ZooOp) :
    AllOrNothing xid chroot ops ↔ ∀ op ∈ ops, op.Accepted chroot ∧ op.Intact := by
  have carried (accepted : ∀ op ∈ ops, op.Accepted chroot) :
      transaction xid chroot (ops.map ZooOp.written) = transaction xid chroot ops ↔ ∀ op ∈ ops, op.Intact := by
    rw [← parts_append_iff chroot (fun op member => (accepted op member).1), transaction, transaction, List.append_assoc,
      List.append_assoc]
    exact List.append_right_inj _
  constructor
  · rintro ⟨nothing, all⟩
    have accepted : ∀ op ∈ ops, op.Accepted chroot := by
      by_contra faulty
      rw [not_forall₂] at faulty
      obtain ⟨op, member, refused⟩ := faulty
      exact multi_ne_nil (fun _ => 0) xid chroot ops (nothing ⟨op, member, refused⟩ _).1
    have intact := (carried accepted).mp (send_inj fun connection => by rw [← multi_of_accepted accepted, all accepted])
    exact fun op member => ⟨accepted op member, intact op member⟩
  · intro sound
    have accepted : ∀ op ∈ ops, op.Accepted chroot := fun op member => (sound op member).1
    refine ⟨?_, fun _ connection => ?_⟩
    · rintro ⟨op, member, refused⟩
      exact absurd (accepted op member) refused
    · rw [multi_of_accepted accepted, (carried accepted).mpr fun op member => (sound op member).2]

/-- A delete with an empty path, then a delete of `/a`: the first leaves its header alone, and both are sent. -/
theorem faulty_transaction_sent : ¬AllOrNothing 1 [] [.delete [] (-1), .delete [47, 97] (-1)] ∧
      (multi (fun _ => 0) 1 [] [.delete [] (-1), .delete [47, 97] (-1)]).2 = 0 := by
  refine ⟨fun whole => ?_, by decide⟩
  have empty := whole.nothing ⟨_, List.mem_cons_self, fun accepted => absurd accepted.2 (by decide)⟩ fun _ => 0
  exact absurd empty.1 (multi_ne_nil _ _ _ _)

end Coev.Zookeeper
