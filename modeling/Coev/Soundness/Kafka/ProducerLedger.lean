import Coev.Proofs.Kafka.ProduceSet
import Coev.Soundness.Kafka.TransportFailure

/-! # The ledger of a broker producer
Every message that comes to a broker producer is in its buffer, in a set that is sent or will be, or in a batch to
retry, or it was disposed of: it has ended, or was given to the retry channel. What is in none of these places was lost
by one of a few steps, and by no other one.
-/

namespace Coev.Kafka

open Std (ExtTreeMap)
open Transition

/-! ## Tickets -/

/-- The tickets of some messages. -/
def tickets (batch : List ProducerMessage) : Multiset ℕ := batch.map (·.ticket)

@[simp] theorem tickets_append (xs ys : List ProducerMessage) : tickets (xs ++ ys) = tickets xs + tickets ys := by
  simp [tickets]

/-- The tickets in a produce set. -/
def ProduceSet.ticketsOf (set : ProduceSet) : Multiset ℕ := set.messages.total fun _ pset => tickets pset.messages

namespace AsyncProducer

variable {conf : ProducerConfig} {a : AsyncProducer} {msg : ProducerMessage} {err : KError} {batch : List ProducerMessage}

/-- The messages that came to an end, and those for the retry handler. -/
def disposed (a : AsyncProducer) : Multiset ℕ := a.ended + tickets a.retries

private theorem disposed_finish (a : AsyncProducer) (msg : ProducerMessage) :
    (a.finish msg).disposed = a.disposed + {msg.ticket} := by
  have ended : ((a.finish msg).ended : Multiset ℕ) = a.ended + {msg.ticket} := by
    rw [finish, ended_done]
    exact (Multiset.coe_add _ _).symm
  have retries : (a.finish msg).retries = a.retries := by simp [finish]
  rw [disposed, disposed, ended, retries, add_right_comm]

private theorem disposed_returnError (a : AsyncProducer) (msg : ProducerMessage) :
    (a.returnError conf msg err).disposed = a.disposed + {msg.ticket} := by
  rw [returnError]
  split <;> exact disposed_finish _ msg

private theorem disposed_returnSuccess (a : AsyncProducer) (msg : ProducerMessage) :
    (a.returnSuccess conf msg).disposed = a.disposed + {msg.ticket} := by
  rw [returnSuccess]
  split <;> exact disposed_finish _ msg

private theorem disposed_retryMessage (a : AsyncProducer) (msg : ProducerMessage) :
    (a.retryMessage conf msg err).disposed = a.disposed + {msg.ticket} := by
  rw [retryMessage]
  split
  · exact disposed_returnError a msg
  · rw [disposed, tickets_append, ← add_assoc]
    rfl

/-- What disposes of each message of a batch. -/
private theorem disposed_foldl {f : AsyncProducer → ProducerMessage → AsyncProducer}
    (each : ∀ a msg, (f a msg).disposed = a.disposed + {msg.ticket}) (a : AsyncProducer) (batch : List ProducerMessage) :
    (batch.foldl f a).disposed = a.disposed + tickets batch := by
  induction batch generalizing a with
  | nil => exact (add_zero _).symm
  | cons msg rest ih =>
    rw [List.foldl_cons, ih, each, add_assoc]
    rfl

end AsyncProducer

namespace ProduceSet

variable {conf : ProducerConfig}

private theorem ticketsOf_setPartition (s : ProduceSet) (tp : TopicPartition) (pset : PartitionSet) :
    (s.setPartition tp pset).ticketsOf =
      tickets pset.messages + (s.messages.erase tp).total fun _ pset => tickets pset.messages :=
  ExtTreeMap.total_insert _ _ tp pset

private theorem ticketsOf_eq (s : ProduceSet) (tp : TopicPartition) :
    s.ticketsOf = s.messages[tp]?.elim 0 (fun pset => tickets pset.messages) +
      (s.messages.erase tp).total fun _ pset => tickets pset.messages := ExtTreeMap.total_eq _ _ tp

private theorem ticketsOf_append (s : ProduceSet) (pset : PartitionSet) (size : Int32) (msg : ProducerMessage)
    (timestamp : Timestamp) : (append conf s pset size msg timestamp).ticketsOf = tickets pset.messages + {msg.ticket} +
      (s.messages.erase (msg.topic, msg.partition)).total fun _ pset => tickets pset.messages :=
  (ticketsOf_setPartition s _ _).trans (congrArg (· + _) (tickets_append pset.messages [msg]))

/-- A message is added, or the set holds what it held. -/
private theorem ticketsOf_add (now : Timestamp) (s : ProduceSet) (msg : ProducerMessage) :
    (s.add conf now msg).2.ticketsOf = s.ticketsOf + if (s.add conf now msg).1 = 0 then {msg.ticket} else 0 := by
  have split := s.ticketsOf_eq (msg.topic, msg.partition)
  rw [add, partitionSet]
  cases found : s.messages[(msg.topic, msg.partition)]? with
  | none =>
    rw [found, Option.elim_none, zero_add] at split
    have none_ : (newPartitionSet conf s msg (messageTime now msg)).1.messages = [] := by
      rw [newPartitionSet]
      split <;> rfl
    simp only
    split
    · simp [ticketsOf_setPartition, none_, split, tickets]
    · rw [if_pos rfl, ticketsOf_append, none_, split, setPartition, ExtTreeMap.erase_insert_self, add_comm]
      exact congrArg (_ + ·) (zero_add _)
  | some pset =>
    rw [found, Option.elim_some] at split
    simp only
    split
    · simp
    · rw [if_pos rfl, ticketsOf_append, split, add_right_comm]

/-- What is dropped leaves the set. -/
private theorem ticketsOf_dropPartition (s : ProduceSet) (topic : Bytes) (partition : Int32) :
    s.ticketsOf = tickets (s.dropPartition topic partition).1 + (s.dropPartition topic partition).2.ticketsOf := by
  rw [s.ticketsOf_eq (topic, partition), dropPartition]
  cases found : s.messages[(topic, partition)]? with
  | none => simp [ticketsOf, tickets, ExtTreeMap.erase_of_getElem?_eq_none found]
  | some pset => rfl

/-- A set that counts no messages has none, unless the counter has wrapped. -/
theorem Holds.ticketsOf_of_empty {s : ProduceSet} {held : TopicPartition → List Entry} (holds : Holds conf s held)
    (few : s.ticketsOf.card < 2 ^ 32) (nothing : s.empty) : s.ticketsOf = 0 := by
  have counted : s.ticketsOf.card = s.messageCount := by
    have sum := map_list_sum Multiset.cardHom (s.messages.toList.map fun entry => tickets entry.2.messages)
    rw [List.map_map] at sum
    exact sum.trans (congrArg List.sum (List.map_congr_left fun entry _ => by simp [tickets]))
  have zero : Int32.ofNat s.messageCount = 0 := holds.count.symm.trans (by simpa [ProduceSet.empty] using nothing)
  have none_ : s.messageCount = 0 := by
    have bits := congrArg (BitVec.toNat ∘ Int32.toBitVec) zero
    simp only [Function.comp_apply, Int32.toBitVec_ofNat', BitVec.toNat_ofNat] at bits
    change s.messageCount % 2 ^ 32 = 0 at bits
    omega
  rw [← Multiset.card_eq_zero, counted, none_]

end ProduceSet

namespace BrokerProducer

variable {conf : ProducerConfig} {s t : BrokerProducer} {sent : ProduceSet} {response : ProduceResponse}
  {tp : TopicPartition}
  {pset : PartitionSet} {err : KError}

/-! ## Where a message is -/

/-- What becomes of a partition with such an error in the first pass over a response: its messages end. -/
def settles (conf : ProducerConfig) (err : KError) : Bool :=
  err = ErrNoError || err = ErrDuplicateSequenceNumber || conf.retryMax = 0

/-- Neither pass over a response handles a partition with such an error. -/
def ignores (conf : ProducerConfig) (err : KError) : Bool := !settles conf err && !isRetriable err

/-- The tickets of the partitions of a set with some errors. -/
def ticketsWith (set : ProduceSet) (response : ProduceResponse) (which : KError → Bool) : Multiset ℕ :=
  set.messages.total fun tp pset => if which (response.getBlock tp).err then tickets pset.messages else 0

/-- The messages that are in a buffer, in a set, or in a batch. -/
def held (s : BrokerProducer) : Multiset ℕ :=
  s.buffer.ticketsOf + (s.output.map ProduceSet.ticketsOf).sum + s.sent.elim 0 ProduceSet.ticketsOf +
    s.refreshing.elim 0 (fun p => ticketsWith p.1 p.2 isRetriable) + (s.batches.map fun b => tickets b.2.1.messages).sum

/-- All messages that are accounted for. -/
def total (s : BrokerProducer) : Multiset ℕ := s.parent.disposed + s.held

/-- What a step brings in. -/
def incoming : Event → Multiset ℕ
  | .receive _ (some msg) => {msg.ticket}
  | .takeBatch _ pset => tickets pset.messages
  | _ => 0

/-- What a step loses: the buffer when a batch is taken, a batch that goes elsewhere, and the partitions of an answer
that are neither settled nor retried. -/
def lost (conf : ProducerConfig) (s : BrokerProducer) : Event → Multiset ℕ
  | .answer err (some response) => if err = ErrNoError then s.sent.elim 0 (ticketsWith · response (ignores conf)) else 0
  | .takeBatch _ _ => s.buffer.ticketsOf
  | .leaderFound .here => if s.batches = [] then 0 else s.buffer.ticketsOf
  | .leaderFound .elsewhere => s.batches.head?.elim 0 fun b => tickets b.2.1.messages
  | _ => 0

/-- What the parent does by itself is left out. -/
def Own : Event → Prop
  | .parent _ => False
  | _ => True

/-- The counter of the buffer is right, and one set at most is underway. -/
structure Orderly (conf : ProducerConfig) (s : BrokerProducer) : Prop where
  counted : ∃ entries, ProduceSet.Holds conf s.buffer entries
  single : s.sent = none ∨ s.refreshing = none
  retries : s.refreshing ≠ none → conf.retryMax ≠ 0

private theorem total_parent (s : BrokerProducer) (parent : AsyncProducer) (more : Multiset ℕ)
    (disposes : parent.disposed = s.parent.disposed + more) : { s with parent }.total = s.total + more := by
  rw [total, total, disposes, add_right_comm]
  rfl

private theorem total_returnErrors (s : BrokerProducer) (batch : List ProducerMessage) (err : KError) :
    (s.returnErrors conf batch err).total = s.total + tickets batch :=
  total_parent s _ _ (AsyncProducer.disposed_foldl AsyncProducer.disposed_returnError s.parent batch)

private theorem total_returnSuccesses (s : BrokerProducer) (batch : List ProducerMessage) :
    (s.returnSuccesses conf batch).total = s.total + tickets batch :=
  total_parent s _ _ (AsyncProducer.disposed_foldl AsyncProducer.disposed_returnSuccess s.parent batch)

private theorem total_retryMessages (s : BrokerProducer) (batch : List ProducerMessage) (err : KError) :
    (s.retryMessages conf batch err).total = s.total + tickets batch :=
  total_parent s _ _ (AsyncProducer.disposed_foldl AsyncProducer.disposed_retryMessage s.parent batch)

/-- Another buffer. -/
private theorem total_buffer (s : BrokerProducer) (buffer : ProduceSet) :
    { s with buffer }.total + s.buffer.ticketsOf = s.total + buffer.ticketsOf := by
  simp only [total, held]
  ac_rfl

/-! ## The buffer -/

private theorem total_rollover (s : BrokerProducer) : s.rollover.total + s.buffer.ticketsOf = s.total :=
  (total_buffer s _).trans (add_zero _)

private theorem total_flush (s : BrokerProducer) : s.flush.total = s.total := by
  have flushed := total_rollover { s with output := s.output ++ [s.buffer] }
  have output : { s with output := s.output ++ [s.buffer] }.total = s.total + s.buffer.ticketsOf := by
    simp only [total, held, List.map_append, List.sum_append, List.map_cons, List.map_nil, List.sum_cons, List.sum_nil,
      add_zero]
    ac_rfl
  exact add_right_cancel (flushed.trans output)

private theorem total_makeRoom (s : BrokerProducer) (msg : ProducerMessage) : (s.makeRoom conf msg).total = s.total := by
  rw [makeRoom]
  split
  · exact total_flush s
  · rfl

private theorem total_matchEpoch (s : BrokerProducer) (msg : ProducerMessage) : (s.matchEpoch msg).total = s.total := by
  rw [matchEpoch]
  split
  · exact total_flush s
  · rfl

private theorem total_addMessage (now : Timestamp) (s : BrokerProducer) (msg : ProducerMessage) :
    (s.addMessage conf now msg).total = s.total + {msg.ticket} := by
  have added := total_buffer s (s.buffer.add conf now msg).2
  rw [ProduceSet.ticketsOf_add, ← add_assoc, add_right_comm] at added
  have total := add_right_cancel added
  rw [addMessage]
  dsimp only
  split
  · next failed =>
    rw [total_returnErrors, total, if_neg failed, add_zero]
    rfl
  · next fine =>
    rw [if_pos (not_not.mp fine)] at total
    split
    · rw [total_flush, total]
    · exact total

private theorem total_receiveMessage (now : Timestamp) (s : BrokerProducer) (msg : ProducerMessage) :
    (s.receiveMessage conf now msg).total = s.total + {msg.ticket} := by
  rw [receiveMessage]
  split
  · exact total_parent { s with currentRetries := _ } _ _ (AsyncProducer.disposed_finish s.parent msg)
  · split
    · rw [redirect]
      split <;> exact total_retryMessages s [msg] _
    · split
      · exact total_retryMessages s [msg] _
      · rw [buffered, total_addMessage, total_matchEpoch, total_makeRoom]

private theorem total_shutdown (s : BrokerProducer) : s.shutdown.total = s.total := by
  rw [shutdown]
  split
  · rfl
  · exact total_flush s

private theorem total_afterResponse (orderly : Orderly conf s) (few : s.total.card < 2 ^ 32) :
    s.afterResponse.total = s.total := by
  rw [afterResponse]
  split
  · next nothing =>
    obtain ⟨entries, holds⟩ := orderly.counted
    have rolled := total_rollover s
    have fewer : s.buffer.ticketsOf.card ≤ s.total.card :=
      Multiset.card_le_card (rolled ▸ Multiset.le_add_left _ _)
    rwa [holds.ticketsOf_of_empty (by omega) nothing, add_zero] at rolled
  · rfl

/-! ## The passes over a response -/

/-- What is done with every partition of a set adds up. -/
private theorem eachPartition_add {σ : Type} {μ : σ → Multiset ℕ} {f : TopicPartition → PartitionSet → σ → σ}
    {g : TopicPartition → PartitionSet → Multiset ℕ} (each : ∀ tp pset s, μ (f tp pset s) = μ s + g tp pset)
    (set : ProduceSet) (s : σ) : μ (set.eachPartition f s) = μ s + set.messages.total g := by
  rw [ProduceSet.eachPartition, ExtTreeMap.total]
  induction set.messages.toList generalizing s with
  | nil => exact (add_zero _).symm
  | cons entry rest ih => rw [List.foldl_cons, ih, each, List.map_cons, List.sum_cons, add_assoc]

private theorem tickets_settled (block : ProduceResponseBlock) (messages : List ProducerMessage) :
    tickets (settled conf block messages) = tickets messages := by
  rw [tickets, tickets]
  congr 1
  exact List.ext_getElem (by simp [settled]) (by simp [settled])

private theorem total_settlePartition (tp : TopicPartition) (pset : PartitionSet) (s : BrokerProducer × List Bytes) :
    (settlePartition conf (some response) tp pset s).1.total =
      s.1.total + if settles conf (response.getBlock tp).err then tickets pset.messages else 0 := by
  simp only [settlePartition, settles, Bool.or_eq_true, decide_eq_true_eq]
  split_ifs with fine duplicate final
  all_goals simp_all [total_returnSuccesses, total_returnErrors, tickets_settled]

/-- The topics to retry are those of the partitions that are not settled. -/
private theorem topics_settlePartition (entries : List (TopicPartition × PartitionSet)) (s : BrokerProducer × List Bytes) :
    (entries.foldl (fun s entry => settlePartition conf (some response) entry.1 entry.2 s) s).2 =
      s.2 ++ (entries.filter fun entry => !settles conf (response.getBlock entry.1).err).map (·.1.1) := by
  induction entries generalizing s with
  | nil => exact (List.append_nil _).symm
  | cons entry rest ih =>
    rw [List.foldl_cons, ih, List.filter_cons]
    simp only [settlePartition, settles]
    split_ifs <;> simp_all

private theorem total_retryBatch (s : BrokerProducer) (tp : TopicPartition) (pset : PartitionSet) (err : KError) :
    (s.retryBatch conf tp pset err).total = s.total + tickets pset.messages := by
  rw [retryBatch]
  split
  · exact total_returnErrors s _ _
  · have same : tickets (pset.messages.map fun msg => { msg with retries := msg.retries + 1 }) = tickets pset.messages := by
      simp [tickets, Function.comp_def]
    simp only [total, held, List.map_append, List.sum_append, List.map_cons, List.map_nil, List.sum_cons, List.sum_nil,
      add_zero,
      same]
    ac_rfl

/-- What the buffer has of a partition is handed to the parent. -/
private theorem total_dropPartition (s : BrokerProducer) (tp : TopicPartition) (err : KError) :
    ({ s with buffer := (s.buffer.dropPartition tp.1 tp.2).2 }.retryMessages conf
    (s.buffer.dropPartition tp.1 tp.2).1 err).total = s.total := by
  have dropped := total_buffer s (s.buffer.dropPartition tp.1 tp.2).2
  rw [s.buffer.ticketsOf_dropPartition tp.1 tp.2, ← add_assoc] at dropped
  rw [total_retryMessages]
  exact add_right_cancel dropped

private theorem total_retryPartition (tp : TopicPartition) (pset : PartitionSet) (s : BrokerProducer) :
    (retryPartition conf response tp pset s).total =
      s.total + if isRetriable (response.getBlock tp).err then tickets pset.messages else 0 := by
  rw [retryPartition]
  split
  · dsimp only
    rw [total_dropPartition]
    split
    · exact total_retryBatch _ tp pset _
    · exact total_retryMessages _ pset.messages _
  · exact (add_zero _).symm

/-- Every partition is settled, retried or ignored. -/
private theorem ticketsOf_split (retries : conf.retryMax ≠ 0) (sent : ProduceSet) (response : ProduceResponse) :
    sent.ticketsOf = ticketsWith sent response (settles conf) + ticketsWith sent response isRetriable +
      ticketsWith sent response (ignores conf) := by
  have each (tp : TopicPartition) (pset : PartitionSet) : tickets pset.messages =
      (if settles conf (response.getBlock tp).err then tickets pset.messages else 0) +
        (if isRetriable (response.getBlock tp).err then tickets pset.messages else 0) +
        if ignores conf (response.getBlock tp).err then tickets pset.messages else 0 := by
    by_cases settled : settles conf (response.getBlock tp).err = true
    · have final : isRetriable (response.getBlock tp).err = false := by
        obtain (none_ | duplicate) :
            (response.getBlock tp).err = ErrNoError ∨ (response.getBlock tp).err = ErrDuplicateSequenceNumber := by
          simpa [settles, retries] using settled
        · rw [none_]; rfl
        · rw [duplicate]; rfl
      simp [ignores, settled, final]
    · cases retriable : isRetriable (response.getBlock tp).err <;> simp [ignores, settled, retriable]
  simp only [ticketsWith, ExtTreeMap.total, ← List.sum_map_add, ProduceSet.ticketsOf]
  exact congrArg List.sum (List.map_congr_left fun entry _ => each entry.1 entry.2)

/-! ## The invariant -/

namespace Orderly

/-- Only the buffer and what is underway count. -/
theorem of_same (orderly : Orderly conf s) (buffer : t.buffer = s.buffer) (sent : t.sent = s.sent)
    (refreshing : t.refreshing = s.refreshing) : Orderly conf t :=
  ⟨buffer ▸ orderly.counted, sent ▸ refreshing ▸ orderly.single, refreshing ▸ orderly.retries⟩

theorem rollover (orderly : Orderly conf s) : Orderly conf s.rollover :=
  ⟨⟨_, ProduceSet.Holds.empty conf s.producerId s.producerEpoch⟩, orderly.single, orderly.retries⟩

theorem flush (orderly : Orderly conf s) : Orderly conf s.flush :=
  rollover (s := { s with output := _ }) (orderly.of_same rfl rfl rfl)

theorem afterResponse (orderly : Orderly conf s) : Orderly conf s.afterResponse := by
  rw [BrokerProducer.afterResponse]
  split
  · exact orderly.rollover
  · exact orderly

/-- An operation on the buffer. -/
theorem call (orderly : Orderly conf s) (call : ProduceSet.SetCall) :
    Orderly conf { s with buffer := call.run conf s.buffer } := by
  obtain ⟨entries, holds⟩ := orderly.counted
  exact ⟨holds.run call, orderly.single, orderly.retries⟩

theorem receiveMessage (orderly : Orderly conf s) (now : Timestamp) (msg : ProducerMessage) :
    Orderly conf (s.receiveMessage conf now msg) := by
  have room : Orderly conf (s.makeRoom conf msg) := by
    rw [makeRoom]
    split
    · exact orderly.flush
    · exact orderly
  have epoch : Orderly conf ((s.makeRoom conf msg).matchEpoch msg) := by
    rw [matchEpoch]
    split
    · exact room.flush
    · exact room
  have added := epoch.call (.add now msg)
  rw [BrokerProducer.receiveMessage]
  split
  · exact orderly.of_same rfl rfl rfl
  · split
    · rw [redirect]
      split <;> exact orderly.of_same rfl rfl rfl
    · split
      · exact orderly.of_same rfl rfl rfl
      · rw [buffered, addMessage]
        dsimp only
        split
        · exact added.of_same rfl rfl rfl
        · split
          · exact added.flush
          · exact added

theorem settlePartition (response : Option ProduceResponse) (tp : TopicPartition) (pset : PartitionSet)
    (s : BrokerProducer × List Bytes) (orderly : Orderly conf s.1) :
    Orderly conf (BrokerProducer.settlePartition conf response tp pset s).1 := by
  cases response with
  | none => exact orderly.of_same rfl rfl rfl
  | some response =>
    simp only [BrokerProducer.settlePartition]
    split_ifs <;> exact orderly.of_same rfl rfl rfl

theorem retryPartition (response : ProduceResponse) (tp : TopicPartition) (pset : PartitionSet) (s : BrokerProducer)
    (orderly : Orderly conf s) : Orderly conf (BrokerProducer.retryPartition conf response tp pset s) := by
  rw [BrokerProducer.retryPartition]
  split
  · have same (s' : BrokerProducer) (buffer : s'.buffer = s.buffer) (sent : s'.sent = s.sent)
        (refreshing : s'.refreshing = s.refreshing) : Orderly conf
          ({ s' with buffer := (s'.buffer.dropPartition tp.1 tp.2).2 }.retryMessages conf
            (s'.buffer.dropPartition tp.1 tp.2).1 (response.getBlock tp).err) :=
      ((orderly.of_same buffer sent refreshing).call (.drop tp.1 tp.2)).of_same rfl rfl rfl
    dsimp only
    split
    · rw [retryBatch]
      split <;> exact same _ rfl rfl rfl
    · exact same _ rfl rfl rfl
  · exact orderly

end Orderly

/-! ## Steps -/

private theorem settlePartition_idle (response : Option ProduceResponse) (tp : TopicPartition) (pset : PartitionSet)
    (s : BrokerProducer × List Bytes) (idle : s.1.sent = none ∧ s.1.refreshing = none) :
    (settlePartition conf response tp pset s).1.sent = none ∧
    (settlePartition conf response tp pset s).1.refreshing = none := by
  cases response with
  | none => exact idle
  | some response =>
    simp only [settlePartition]
    split_ifs <;> exact idle

/-- Where there is nothing to retry, all is settled. -/
private theorem ticketsWith_of_settled
    (settled : ∀ entry ∈ sent.messages.toList, settles conf (response.getBlock entry.1).err = true) :
    ticketsWith sent response (settles conf) = sent.ticketsOf ∧ ticketsWith sent response (ignores conf) = 0 := by
  constructor
  · exact congrArg List.sum (List.map_congr_left fun entry member => if_pos (settled entry member))
  · refine (congrArg List.sum (List.map_congr_left fun entry member => ?_)).trans
      (List.sum_map_zero (l := sent.messages.toList))
    simp [ignores, settled entry member]

/-- All that stands in a response is settled, retried or ignored. -/
private theorem handleSuccess_total (orderly : Orderly conf s) (idle : s.sent = none ∧ s.refreshing = none)
    (response : Option ProduceResponse) (few : (s.total + sent.ticketsOf).card < 2 ^ 32) :
    (s.handleSuccess conf sent response).total + response.elim 0 (ticketsWith sent · (ignores conf)) =
        s.total + sent.ticketsOf ∧ Orderly conf (s.handleSuccess conf sent response) := by
  have kept :=
    eachPartition_induct (P := fun s => Orderly conf s.1) (Orderly.settlePartition response) sent (s := (s, [])) orderly
  cases response with
  | none =>
    have each (tp : TopicPartition) (pset : PartitionSet) (s : BrokerProducer × List Bytes) :
        (settlePartition conf none tp pset s).1.total = s.1.total + tickets pset.messages := total_returnSuccesses s.1 _
    have passed := eachPartition_add (μ := fun s => s.1.total) each sent (s, [])
    refine ⟨?_, kept.afterResponse⟩
    exact (add_zero _).trans ((total_afterResponse kept (passed ▸ few)).trans passed)
  | some response =>
    have passed := eachPartition_add (μ := fun s => s.1.total) (@total_settlePartition conf response) sent
      (s, [])
    have topics := @topics_settlePartition conf response sent.messages.toList (s, [])
    have still := eachPartition_induct (P := fun s => s.1.sent = none ∧ s.1.refreshing = none)
      (@settlePartition_idle conf (some response)) sent (s := (s, [])) idle
    rw [← ProduceSet.eachPartition] at topics
    change _ = s.total + ticketsWith sent response (settles conf) at passed
    rw [BrokerProducer.handleSuccess]
    generalize sent.eachPartition (settlePartition conf (some response)) (s, []) = after at passed topics still kept ⊢
    obtain ⟨s₁, retryTopics⟩ := after
    dsimp only at passed topics still kept ⊢
    split
    · next none_ =>
      have nothing : ∀ entry ∈ sent.messages.toList, settles conf (response.getBlock entry.1).err = true := by
        rw [none_, List.nil_append, eq_comm, List.map_eq_nil_iff, List.filter_eq_nil_iff] at topics
        simpa using topics
      obtain ⟨all, ignored⟩ := ticketsWith_of_settled nothing
      rw [all] at passed
      exact ⟨by
        rw [total_afterResponse kept (passed ▸ few), passed, Option.elim_some, ignored, add_zero], kept.afterResponse⟩
    · next some_ =>
      have retries : conf.retryMax ≠ 0 := fun final => some_ (by simpa [settles, final] using topics)
      have parts := ticketsOf_split retries sent response
      split
      · refine ⟨?_, kept.counted, .inl still.1, fun _ => retries⟩
        have waits :
            { s₁ with refreshing := some (sent, response) }.total =
              s₁.total + ticketsWith sent response isRetriable := by
          simp only [total, held, still.2, Option.elim_none, Option.elim_some, add_zero]
          ac_rfl
        rw [waits, passed, parts, Option.elim_some]
        ac_rfl
      · have again := eachPartition_add (μ := total) (@total_retryPartition conf response) sent s₁
        have kept := eachPartition_induct (P := Orderly conf) (Orderly.retryPartition response) sent kept
        change _ = s₁.total + ticketsWith sent response isRetriable at again
        have few' : (sent.eachPartition (retryPartition conf response) s₁).total.card < 2 ^ 32 := by
          refine lt_of_le_of_lt (Multiset.card_le_card ?_) few
          rw [again, passed, parts, ← add_assoc, ← add_assoc]
          exact Multiset.le_add_right _ _
        refine ⟨?_, kept.afterResponse⟩
        rw [total_afterResponse kept few', again, passed, parts, Option.elim_some]
        ac_rfl

private theorem tickets_messagesOf (set : ProduceSet) : tickets (messagesOf set) = set.ticketsOf := by
  rw [messagesOf, ProduceSet.ticketsOf, ExtTreeMap.total]
  induction set.messages.toList with
  | nil => rfl
  | cons entry rest ih => rw [List.flatMap_cons, tickets_append, ih, List.map_cons, List.sum_cons]

private theorem total_takeBatch (s : BrokerProducer) (tp : TopicPartition) (pset : PartitionSet) :
    (s.takeBatch tp pset).total + s.buffer.ticketsOf = s.total + tickets pset.messages := by
  have batch : (s.batchSet tp pset).ticketsOf = tickets pset.messages := by
    change ((∅ : TopicPartitionMap PartitionSet).insert tp pset).total _ = _
    rw [ExtTreeMap.total_insert, ExtTreeMap.erase_of_getElem?_eq_none ExtTreeMap.getElem?_empty]
    exact add_zero _
  refine (total_rollover { s with output := s.output ++ [s.batchSet tp pset] }).trans ?_
  simp only [total, held, List.map_append, List.sum_append, List.map_cons, List.map_nil, List.sum_cons, List.sum_nil,
    add_zero, batch]
  ac_rfl

/-- The set in flight is answered. -/
private theorem answer_total (orderly : Orderly conf s) {err : KError} (waits : s.sent = some sent)
    (response : Option ProduceResponse) (few : s.total.card < 2 ^ 32) :
    (s.answer conf err response).total + lost conf s (.answer err response) = s.total ∧
      Orderly conf (s.answer conf err response) := by
  have refreshing : s.refreshing = none := orderly.single.resolve_left (by simp [waits])
  have before : s.total = { s with sent := none }.total + sent.ticketsOf := by
    simp only [total, held, waits, Option.elim_some, Option.elim_none, add_zero]
    ac_rfl
  have idle : Orderly conf { s with sent := none } := ⟨orderly.counted, .inl rfl, orderly.retries⟩
  rw [answer, waits]
  dsimp only
  by_cases fine : err = ErrNoError
  · rw [before] at few
    obtain ⟨total, kept⟩ := handleSuccess_total idle ⟨rfl, refreshing⟩ response few
    rw [if_pos fine, handleResponse, if_neg (not_not.mpr rfl), before]
    refine ⟨?_, kept⟩
    cases response with
    | none => exact total
    | some response => rwa [lost, if_pos fine, waits]
  · have eof : ErrIOEOF ≠ ErrNoError := by decide
    have none_ : lost conf s (.answer err response) = 0 := by
      cases response with
      | none => rfl
      | some response => exact if_neg fine
    have kept : Orderly conf ({ s with sent := none }.returnErrors conf (messagesOf sent) ErrIOEOF) :=
      idle.of_same rfl rfl rfl
    have returned := @total_returnErrors conf { s with sent := none } (messagesOf sent) ErrIOEOF
    rw [tickets_messagesOf, ← before] at returned
    rw [if_neg fine, handleResponse, if_pos eof, handleError_of_ne eof, none_, add_zero]
    exact ⟨(total_afterResponse kept (returned ▸ few)).trans returned, kept.afterResponse⟩

private theorem refreshed_total (orderly : Orderly conf s) (few : s.total.card < 2 ^ 32) :
    (s.refreshed conf).total = s.total ∧ Orderly conf (s.refreshed conf) := by
  rw [refreshed]
  split
  · exact ⟨rfl, orderly⟩
  · next sent response waits =>
    have before : s.total = { s with refreshing := none }.total + ticketsWith sent response isRetriable := by
      simp only [total, held, waits, Option.elim_some, Option.elim_none, add_zero]
      ac_rfl
    have idle : Orderly conf { s with refreshing := none } := ⟨orderly.counted, .inr rfl, fun some_ => absurd rfl some_⟩
    have again := eachPartition_add (μ := total) (@total_retryPartition conf response) sent
      { s with refreshing := none }
    have kept := eachPartition_induct (P := Orderly conf) (Orderly.retryPartition response) sent idle
    rw [← ticketsWith, ← before] at again
    exact ⟨(total_afterResponse kept (again ▸ few)).trans again, kept.afterResponse⟩

private theorem leaderFound_total (orderly : Orderly conf s) (found : LeaderAnswer) :
    (s.leaderFound conf found).total + lost conf s (.leaderFound found) = s.total ∧
      Orderly conf (s.leaderFound conf found) := by
  rw [leaderFound]
  split
  · next none_ => cases found <;> exact ⟨by simp [lost, none_], orderly⟩
  · next tp pset err batches some_ =>
    have before : s.total = { s with batches }.total + tickets pset.messages := by
      simp only [total, held, some_, List.map_cons, List.sum_cons]
      ac_rfl
    cases found with
    | failed =>
      exact ⟨(add_zero _).trans ((total_returnErrors _ _ _).trans before.symm), orderly.of_same rfl rfl rfl⟩
    | here =>
      refine ⟨?_, Orderly.rollover (s := { s with batches, output := _ }) (orderly.of_same rfl rfl rfl)⟩
      rw [lost, if_neg (by simp [some_]), before]
      exact total_takeBatch { s with batches } tp pset
    | elsewhere => exact ⟨by rw [before, lost, some_]; rfl, orderly.of_same rfl rfl rfl⟩

/-- A step accounts for all that was there and came in, but for what it loses. -/
private theorem step_total (orderly : Orderly conf s) {e : Event} (possible : s.Possible e) (own : Own e)
    (few : (s.total + incoming e).card < 2 ^ 32) :
    (s.apply conf e).total + lost conf s e = s.total + incoming e ∧ Orderly conf (s.apply conf e) := by
  cases e with
  | receive now msg =>
    cases msg with
    | none =>
      refine ⟨congrArg (· + 0) (total_shutdown s), ?_⟩
      change Orderly conf s.shutdown
      rw [shutdown]
      split
      · exact orderly.of_same rfl rfl rfl
      · exact orderly.flush.of_same rfl rfl rfl
    | some msg => exact ⟨(add_zero _).trans (total_receiveMessage now s msg), orderly.receiveMessage now msg⟩
  | send =>
    obtain ⟨output, sent, refreshing⟩ := possible
    rw [Option.isNone_iff_eq_none] at sent refreshing
    change s.send.total + 0 = s.total + 0 ∧ Orderly conf s.send
    rw [send]
    split
    · exact ⟨rfl, orderly⟩
    · next set rest some_ =>
      refine ⟨?_, orderly.counted, .inr refreshing, orderly.retries⟩
      simp only [total, held, some_, sent, Option.elim_some, Option.elim_none, List.map_cons, List.sum_cons, add_zero]
      ac_rfl
  | answer err response =>
    obtain ⟨sent, waits⟩ := Option.isSome_iff_exists.mp possible
    change (s.total + 0).card < 2 ^ 32 at few
    change _ = s.total + 0 ∧ _
    rw [add_zero] at few ⊢
    exact answer_total orderly waits response few
  | refreshed =>
    obtain ⟨total, kept⟩ := refreshed_total orderly (by simpa [incoming] using few)
    exact ⟨congrArg (· + 0) total, kept⟩
  | leaderFound found =>
    obtain ⟨total, kept⟩ := leaderFound_total orderly found
    exact ⟨total.trans (add_zero _).symm, kept⟩
  | takeBatch tp pset =>
    exact ⟨total_takeBatch s tp pset, Orderly.rollover (s := { s with output := _ }) (orderly.of_same rfl rfl rfl)⟩
  | producer producerId producerEpoch => exact ⟨rfl, orderly.of_same rfl rfl rfl⟩
  | parent e => exact own.elim

/-! ## Runs -/

/-- What the steps of a run lose. -/
def lostIn (conf : ProducerConfig) (s : BrokerProducer) : List Event → Multiset ℕ
  | [] => 0
  | e :: es => lost conf s e + lostIn conf (s.apply conf e) es

/-- The broker producer takes one step after the other, each of them possible. -/
def Run (conf : ProducerConfig) : BrokerProducer → List Event → Prop :=
  Along (fun s e => s.Possible e ∧ Own e) fun s e t => t = s.apply conf e

private theorem run_total (orderly : Orderly conf s) {es : List Event} (run : Run conf s es)
    (few : (s.total + (es.map incoming).sum).card < 2 ^ 32) :
    (es.foldl (apply conf) s).total + lostIn conf s es = s.total + (es.map incoming).sum := by
  induction es generalizing s with
  | nil => rfl
  | cons e es ih =>
    obtain ⟨⟨possible, own⟩, rest⟩ := run
    rw [List.map_cons, List.sum_cons, ← add_assoc] at few ⊢
    have fewer : (s.total + incoming e).card < 2 ^ 32 :=
      lt_of_le_of_lt (Multiset.card_le_card (Multiset.le_add_right _ _)) few
    obtain ⟨total, kept⟩ := step_total orderly possible own fewer
    have smaller : ((s.apply conf e).total + (es.map incoming).sum).card < 2 ^ 32 := by
      refine lt_of_le_of_lt (Multiset.card_le_card ?_) few
      rw [← total, add_right_comm]
      exact Multiset.le_add_right _ _
    have later := ih kept (rest _ rfl) smaller
    rw [List.foldl_cons, lostIn, ← total, add_right_comm, ← later]
    ac_rfl

end BrokerProducer

end Coev.Kafka
