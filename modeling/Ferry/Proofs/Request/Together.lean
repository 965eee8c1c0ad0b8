import Ferry.Proofs.Request.Table
import Mathlib.Data.List.Nodup

/-!
Several operations with the same options. A name stands in one row of the table, so whatever
operations send something under it send the same (`due_unique`). What a list of operations makes of
parameters is therefore told by which operations are in it (`applyEach_eq_of_mem_iff`), and
operations that take the same rows, or more of them, send the same, or more (`get?_apply_congr`,
`within_apply`).
-/
namespace Ferry.Request

variable {o : Options} {params : NameMap String} {op op' : Operation} {ops ops' : List Operation}
  {name v w : String}

/-- A name stands in one row of the table. -/
theorem eq_of_name_eq {p q : Parameter} (hp : p ∈ table) (hq : q ∈ table)
    (same : p.name = q.name) : p = q := by
  have once : (table.map Parameter.name).Nodup := by decide
  exact List.inj_on_of_nodup_map once hp hq same

/-- Whatever operations send a value under a name send the same one. -/
theorem due_unique (due : Due op o name v) (due' : Due op' o name w) : v = w := by
  obtain ⟨p, hp, named, -, -, set, -⟩ := due
  obtain ⟨q, hq, named', -, -, set', -⟩ := due'
  obtain rfl := eq_of_name_eq hp hq (named.trans named'.symm)
  exact Option.some.inj (set.symm.trans set')

/-- What is due to an operation is due to every other one that takes it. -/
theorem Due.of_takes (due : Due op o name v)
    (takes : ∀ p ∈ table, p.name = name → op ∈ p.takenBy → op' ∈ p.takenBy) :
    Due op' o name v := by
  obtain ⟨p, mem, named, taken, rest⟩ := due
  exact ⟨p, mem, named, takes p mem named taken, rest⟩

/-- What stands under a name after several operations: what is due to any of them, or what was there
if nothing is due to any. -/
theorem get?_applyEach_eq_some_iff :
    (applyEach params (ops.map fun op => (op, o))).get? name = some v ↔
      (∃ op ∈ ops, Due op o name v) ∨
        (∀ op ∈ ops, ∀ w, ¬ Due op o name w) ∧ params.get? name = some v := by
  induction ops generalizing params with
  | nil => simp [applyEach]
  | cons op ops ih =>
    rw [List.map_cons, applyEach, ih, get?_apply_eq_some_iff, List.exists_mem_cons_iff,
      List.forall_mem_cons]
    constructor
    · rintro (later | ⟨none_later, first | ⟨none_first, old⟩⟩)
      · exact .inl (.inr later)
      · exact .inl (.inl first)
      · exact .inr ⟨⟨none_first, none_later⟩, old⟩
    · rintro ((first | later) | ⟨⟨none_first, none_later⟩, old⟩)
      · -- the first one's value is not overwritten, since a later one would be the same
        by_cases sent_later : ∃ op ∈ ops, ∃ w, Due op o name w
        · obtain ⟨op', mem, w, due⟩ := sent_later
          exact .inl ⟨op', mem, due_unique due first ▸ due⟩
        · exact .inr ⟨fun op' mem w due => sent_later ⟨op', mem, w, due⟩, .inl first⟩
      · exact .inl later
      · exact .inr ⟨none_later, .inr ⟨none_first, old⟩⟩

/-- The order of operations does not matter, nor how often one occurs. -/
theorem applyEach_eq_of_mem_iff (ops ops' : List Operation)
    (same : ∀ op, op ∈ ops ↔ op ∈ ops') :
    applyEach params (ops.map fun op => (op, o)) =
      applyEach params (ops'.map fun op => (op, o)) := by
  refine NameMap.ext_get? fun name => Option.ext fun v => ?_
  simp only [get?_applyEach_eq_some_iff, same]

theorem apply_idem : op.apply o (op.apply o params) = op.apply o params :=
  applyEach_eq_of_mem_iff [op, op] [op] (by simp)

theorem apply_comm : op'.apply o (op.apply o params) = op.apply o (op'.apply o params) :=
  applyEach_eq_of_mem_iff [op, op'] [op', op] (by simp [or_comm])

/-- Two operations that both take a parameter, or both do not, leave the same under its name. -/
theorem get?_apply_congr
    (takes : ∀ p ∈ table, p.name = name → (op ∈ p.takenBy ↔ op' ∈ p.takenBy)) :
    (op.apply o params).get? name = (op'.apply o params).get? name := by
  have due_iff : ∀ v, Due op o name v ↔ Due op' o name v := fun v =>
    ⟨fun due => due.of_takes fun p mem named => (takes p mem named).1,
      fun due => due.of_takes fun p mem named => (takes p mem named).2⟩
  refine Option.ext fun v => ?_
  simp only [get?_apply_eq_some_iff, due_iff]

theorem apply_congr (takes : ∀ p ∈ table, (op ∈ p.takenBy ↔ op' ∈ p.takenBy)) :
    op.apply o params = op'.apply o params :=
  NameMap.ext_get? fun _ => get?_apply_congr fun p mem _ => takes p mem

/-- What stands under a name is left alone by an operation that takes no parameter of that name. -/
theorem get?_apply_of_not_taken
    (untaken : ∀ p ∈ table, p.name = name → op ∉ p.takenBy) :
    (op.apply o params).get? name = params.get? name := by
  have nothing_due : ∀ v, ¬ Due op o name v := by
    rintro v ⟨p, mem, named, taken, -⟩
    exact untaken p mem named taken
  refine Option.ext fun v => ?_
  rw [get?_apply_eq_some_iff, or_iff_right (nothing_due v)]
  exact and_iff_right nothing_due

/-- An operation sets the parameter of a row that it takes, if its option is there and not empty. -/
theorem get?_apply_of_row {p : Parameter} (row : p ∈ table) (taken : op ∈ p.takenBy) :
    (op.apply o params).get? p.name = (present (p.value o)).or (params.get? p.name) := by
  have distinct : ((op.rows.map fun p => (p.name, p.value o)).map Prod.fst).Nodup := by
    rw [List.map_map]
    exact rows_nodup op
  have found : (op.rows.map fun p => (p.name, p.value o)).lookup p.name = some (p.value o) :=
    (lookup_eq_some_iff distinct).2 (List.mem_map_of_mem (mem_rows.2 ⟨row, taken⟩))
  rw [get?_apply, Operation.sends, found]
  rfl

/-- Whether all that stands in some parameters stands in others. -/
def Within (params others : NameMap String) : Prop :=
  ∀ name v, params.get? name = some v → others.get? name = some v

/-- An operation that takes all that another one takes sends all that the other one sends. -/
theorem within_apply (takes : ∀ p ∈ table, op ∈ p.takenBy → op' ∈ p.takenBy) :
    Within (op.apply o .empty) (op'.apply o .empty) := by
  intro name v sent
  obtain due | ⟨-, ⟨⟩⟩ := get?_apply_eq_some_iff.1 sent
  exact get?_apply_eq_some_iff.2 (.inl (due.of_takes fun p mem _ => takes p mem))

/-- The operations that send the parts of an object. -/
def partOperations : List Operation := [.uploadPart, .uploadPartCopy]

/-- What the parts of an object have in common with the request that begins it: the customer's key
with its algorithm, and who pays. -/
def sharedNames : List String := ["SSECustomerAlgorithm", "SSECustomerKey", "RequestPayer"]

/-- What only the request that begins an object says: how the service encrypts it, and with which of
its keys. -/
def serviceNames : List String := ["ServerSideEncryption", "SSEKMSKeyId"]

/-- These rows are taken by the operations for parts and by the one that begins an object. -/
theorem shared_rows : ∀ part ∈ partOperations, ∀ name ∈ sharedNames, ∀ p ∈ table, p.name = name →
    (part ∈ p.takenBy ↔ .createMultipartUpload ∈ p.takenBy) := by
  decide

/-- And these by none of the operations for parts. -/
theorem service_rows : ∀ part ∈ partOperations, ∀ name ∈ serviceNames, ∀ p ∈ table,
    p.name = name → part ∉ p.takenBy := by
  decide

/-- Operations with the same options may follow each other in any order and any number of times.
Those that write a whole object, or begin to, send the same; so do those that ask for one or send a
part of it, which is not more than what any other one sends. The parts of an object come with the
customer's key and the payer of the request that begins it; a key of the service is named by that
request, and the parts leave alone what stands under its names. -/
theorem operations_agree (o : Options) (params : NameMap String) :
    (∀ ops ops' : List Operation, (∀ op, op ∈ ops ↔ op ∈ ops') →
      applyEach params (ops.map fun op => (op, o)) =
        applyEach params (ops'.map fun op => (op, o))) ∧
    (∀ op : Operation, op.apply o (op.apply o params) = op.apply o params) ∧
    (∀ op op' : Operation,
      op'.apply o (op.apply o params) = op.apply o (op'.apply o params)) ∧
    Operation.putObject.apply o params = Operation.createMultipartUpload.apply o params ∧
    Operation.headObject.apply o params = Operation.getObject.apply o params ∧
    Operation.getObject.apply o params = Operation.uploadPart.apply o params ∧
    (∀ op : Operation, Within (Operation.uploadPart.apply o .empty) (op.apply o .empty)) ∧
    Within (Operation.uploadPartCopy.apply o .empty) (Operation.copyObject.apply o .empty) ∧
    (∀ part ∈ partOperations, ∀ name ∈ sharedNames, (part.apply o params).get? name =
      (Operation.createMultipartUpload.apply o params).get? name) ∧
    (Operation.createMultipartUpload.apply o params).get? "ServerSideEncryption" =
      (present o.encryption).or (params.get? "ServerSideEncryption") ∧
    (Operation.createMultipartUpload.apply o params).get? "SSEKMSKeyId" =
      (present o.encryptionKeyId).or (params.get? "SSEKMSKeyId") ∧
    ∀ part ∈ partOperations, ∀ name ∈ serviceNames,
      (part.apply o params).get? name = params.get? name := by
  refine ⟨applyEach_eq_of_mem_iff, fun _ => apply_idem, fun _ _ => apply_comm,
    apply_congr (by decide), apply_congr (by decide), apply_congr (by decide), fun op => ?_,
    within_apply (by decide), fun part mem name shared => ?_, ?_, ?_, fun part mem name own => ?_⟩
  · cases op <;> exact within_apply (by decide)
  · exact get?_apply_congr (shared_rows part mem name shared)
  · have row : ⟨"ServerSideEncryption", Options.encryption, none, writes⟩ ∈ table := by
      simp [table]
    exact get?_apply_of_row row (by decide)
  · have row : ⟨"SSEKMSKeyId", Options.encryptionKeyId, none, writes⟩ ∈ table := by
      simp [table]
    exact get?_apply_of_row row (by decide)
  · exact get?_apply_of_not_taken (service_rows part mem name own)

/-- Encryption with a key of the service. -/
def serviceKey : Options :=
  { noOptions with encryption := some "aws:kms", encryptionKeyId := some "key" }

/-- A copy that is begun twice, before a part of it and after: the key of the service comes with the
request that begins it, and its part is sent with what stood in the request before. -/
theorem begun_twice_as_once :
    (∀ op : Operation, op ∈ [.createMultipartUpload, .uploadPartCopy, .createMultipartUpload] ↔
      op ∈ [.uploadPartCopy, .createMultipartUpload]) ∧
    applyEach keyedRequest [(.createMultipartUpload, serviceKey), (.uploadPartCopy, serviceKey),
      (.createMultipartUpload, serviceKey)] =
        applyEach keyedRequest
          [(.uploadPartCopy, serviceKey), (.createMultipartUpload, serviceKey)] ∧
    (Operation.createMultipartUpload.apply serviceKey keyedRequest).get? "SSEKMSKeyId" =
      some "key" ∧
    Operation.uploadPartCopy ∈ partOperations ∧ "SSEKMSKeyId" ∈ serviceNames ∧
    (Operation.uploadPartCopy.apply serviceKey keyedRequest).get? "SSEKMSKeyId" = none := by
  have same : ∀ op : Operation,
      op ∈ [.createMultipartUpload, .uploadPartCopy, .createMultipartUpload] ↔
        op ∈ [.uploadPartCopy, .createMultipartUpload] := by
    rintro (_ | _ | _ | _ | _ | _ | _) <;> decide
  have part : Operation.uploadPartCopy ∈ partOperations := by decide
  have service : "SSEKMSKeyId" ∈ serviceNames := by decide
  obtain ⟨orders, -, -, -, -, -, -, -, -, -, named, untouched⟩ :=
    operations_agree serviceKey keyedRequest
  exact ⟨same, orders _ _ same, named, part, service, untouched _ part _ service⟩

/-- It is asked for when an object is begun, and not again with its parts. -/
theorem service_key_not_sent_with_parts :
    (Operation.createMultipartUpload.apply serviceKey .empty).get? "ServerSideEncryption" =
      some "aws:kms" ∧
    (Operation.createMultipartUpload.apply serviceKey .empty).get? "SSEKMSKeyId" = some "key" ∧
    ∀ part ∈ partOperations,
      (part.apply serviceKey .empty).get? "ServerSideEncryption" = none ∧
        (part.apply serviceKey .empty).get? "SSEKMSKeyId" = none := by
  decide

end Ferry.Request
