import Ferry.Request.Parameters

/-!
The parameters of requests as one table: the option that each is set from, the option without which
it is not sent, and the operations that take it. An operation takes its options in groups; laid out
one after another these are the rows of the table that name it (`parameters_eq_rows`). No name
stands in two rows, so what an operation sets under a name is read off the one row of that name
(`get?_apply`, `sends_eq_some_iff`).
-/
namespace Ferry.Request

/-- A row of the table. -/
structure Parameter where
  name : String
  option : Options → Option String
  /-- The option without which this one is not sent. -/
  companion : Option (Options → Option String)
  takenBy : List Operation

/-- The operations that write a whole object, or begin to. -/
def writes : List Operation := [.putObject, .copyObject, .createMultipartUpload]

/-- The operations that copy from a source. -/
def copies : List Operation := [.copyObject, .uploadPartCopy]

def everywhere : List Operation :=
  [.headObject, .getObject, .putObject, .copyObject, .createMultipartUpload, .uploadPart,
    .uploadPartCopy]

/-- All parameters that options are sent as. -/
def table : List Parameter :=
  [⟨"ACL", Options.acl, none, writes⟩,
   ⟨"StorageClass", Options.storageClass, none, writes⟩,
   ⟨"WebsiteRedirectLocation", Options.redirect, none, writes⟩,
   ⟨"ContentType", Options.contentType, none, writes⟩,
   ⟨"CacheControl", Options.cacheControl, none, writes⟩,
   ⟨"ContentDisposition", Options.contentDisposition, none, writes⟩,
   ⟨"ContentEncoding", Options.contentEncoding, none, writes⟩,
   ⟨"ContentLanguage", Options.contentLanguage, none, writes⟩,
   ⟨"Expires", Options.expires, none, writes⟩,
   ⟨"MetadataDirective", Options.metadataDirective, none, [.copyObject]⟩,
   ⟨"ServerSideEncryption", Options.encryption, none, writes⟩,
   ⟨"SSEKMSKeyId", Options.encryptionKeyId, none, writes⟩,
   ⟨"SSECustomerAlgorithm", Options.customerAlgorithm, none, everywhere⟩,
   ⟨"SSECustomerKey", Options.customerKey, some Options.customerAlgorithm, everywhere⟩,
   ⟨"CopySourceSSECustomerAlgorithm", Options.sourceAlgorithm, none, copies⟩,
   ⟨"CopySourceSSECustomerKey", Options.sourceKey, some Options.sourceAlgorithm, copies⟩,
   ⟨"RequestPayer", Options.payer, none, everywhere⟩]

def noOptions : Options :=
  ⟨none, none, none, none, none, none, none, none, none, none, none, none, none, none, none, none,
    none⟩

/-- The option is there and not empty. -/
def IsGiven (option : Option String) : Prop := ∃ value, option = some value ∧ value ≠ ""

/-- The options have an operation send this value under this name. -/
def Due (op : Operation) (o : Options) (name value : String) : Prop :=
  ∃ p ∈ table, p.name = name ∧ op ∈ p.takenBy ∧ (∀ other ∈ p.companion, IsGiven (other o)) ∧
    p.option o = some value ∧ value ≠ ""

theorem present_eq_some_iff {option : Option String} {value : String} :
    present option = some value ↔ option = some value ∧ value ≠ "" := by
  simp [present, Option.filter_eq_some_iff]

theorem isSome_present_iff {option : Option String} :
    (present option).isSome = true ↔ IsGiven option := by
  simp [Option.isSome_iff_exists, present_eq_some_iff, IsGiven]

namespace Parameter

/-- What a row sends, before empty values are left out. -/
def value (p : Parameter) (o : Options) : Option String :=
  match p.companion with
  | none => p.option o
  | some other => withAlgorithm (other o) (p.option o)

theorem present_value_iff {p : Parameter} {o : Options} {v : String} :
    present (p.value o) = some v ↔
      (∀ other ∈ p.companion, IsGiven (other o)) ∧ p.option o = some v ∧ v ≠ "" := by
  rw [present_eq_some_iff]
  cases companion : p.companion with
  | none => simp [value, companion]
  | some other =>
    by_cases given : IsGiven (other o) <;>
      simp [value, companion, withAlgorithm, isSome_present_iff, given]

end Parameter

/-- The rows that name an operation. -/
def Operation.rows (op : Operation) : List Parameter := table.filter fun p => op ∈ p.takenBy

theorem mem_rows {op : Operation} {p : Parameter} : p ∈ op.rows ↔ p ∈ table ∧ op ∈ p.takenBy := by
  simp [Operation.rows]

theorem rows_nodup (op : Operation) : (op.rows.map Parameter.name).Nodup := by
  have once : (table.map Parameter.name).Nodup := by decide
  exact once.sublist (List.filter_sublist.map Parameter.name)

/-- The groups of an operation hold its rows, in the order of the table. -/
theorem parameters_eq_rows (op : Operation) (o : Options) :
    op.groups.flatMap (·.parameters o) = op.rows.map fun p => (p.name, p.value o) := by
  cases op <;> rfl

theorem get?_setPresent (params : NameMap String) (entry : String × Option String)
    (name : String) : (setPresent params entry).get? name =
      if name = entry.1 then (present entry.2).or (params.get? name) else params.get? name := by
  unfold setPresent
  cases present entry.2 with
  | none => simp
  | some value => rw [NameMap.get?_insert]; rfl

/-- Entries of different names are set independently of each other. -/
theorem get?_foldl_setPresent (entries : List (String × Option String))
    (distinct : (entries.map Prod.fst).Nodup) (params : NameMap String) (name : String) :
    (entries.foldl setPresent params).get? name =
      ((entries.lookup name).bind present).or (params.get? name) := by
  induction entries generalizing params with
  | nil => rfl
  | cons entry entries ih =>
    obtain ⟨fresh, distinct⟩ := List.nodup_cons.1 distinct
    rw [List.foldl_cons, ih distinct, get?_setPresent, List.lookup_cons]
    by_cases own : name = entry.1
    · -- no later entry has this name
      have absent : entries.lookup name = none := by
        rw [List.lookup_eq_none_iff]
        intro later mem
        have ne : name ≠ later.1 := fun same => fresh (own ▸ same ▸ List.mem_map_of_mem mem)
        simp [ne]
      simp [own, own ▸ absent]
    · simp [own, beq_false_of_ne own]

/-- What an operation sets under a name. -/
def Operation.sends (op : Operation) (o : Options) (name : String) : Option String :=
  ((op.rows.map fun p => (p.name, p.value o)).lookup name).bind present

theorem get?_apply (op : Operation) (o : Options) (params : NameMap String) (name : String) :
    (op.apply o params).get? name = (op.sends o name).or (params.get? name) := by
  rw [Operation.apply, parameters_eq_rows, get?_foldl_setPresent, Operation.sends]
  rw [List.map_map]
  exact rows_nodup op

theorem lookup_eq_some_iff {entries : List (String × Option String)} {name : String}
    {option : Option String} (distinct : (entries.map Prod.fst).Nodup) :
    entries.lookup name = some option ↔ (name, option) ∈ entries := by
  induction entries with
  | nil => simp
  | cons entry entries ih =>
    obtain ⟨fresh, distinct⟩ := List.nodup_cons.1 distinct
    rw [List.lookup_cons, List.mem_cons]
    by_cases own : name = entry.1
    · have absent : (name, option) ∉ entries := fun mem => fresh (own ▸ List.mem_map_of_mem mem)
      simp [own, own ▸ absent, Prod.ext_iff, eq_comm]
    · simp [beq_false_of_ne own, Prod.ext_iff, own, ih distinct]

theorem sends_eq_some_iff {op : Operation} {o : Options} {name v : String} :
    op.sends o name = some v ↔ Due op o name v := by
  have distinct : ((op.rows.map fun p => (p.name, p.value o)).map Prod.fst).Nodup := by
    rw [List.map_map]
    exact rows_nodup op
  rw [Operation.sends, Option.bind_eq_some_iff]
  simp only [lookup_eq_some_iff distinct, List.mem_map, Prod.mk.injEq]
  constructor
  · rintro ⟨_, ⟨p, row, rfl, rfl⟩, sent⟩
    obtain ⟨mem, taken⟩ := mem_rows.1 row
    obtain ⟨given, set, some_text⟩ := Parameter.present_value_iff.1 sent
    exact ⟨p, mem, rfl, taken, given, set, some_text⟩
  · rintro ⟨p, mem, rfl, taken, given, set, some_text⟩
    exact ⟨p.value o, ⟨p, mem_rows.2 ⟨mem, taken⟩, rfl, rfl⟩,
      Parameter.present_value_iff.2 ⟨given, set, some_text⟩⟩

/-- The customers' keys, each with its algorithm. -/
def keys : List (String × String) :=
  [("SSECustomerKey", "SSECustomerAlgorithm"),
   ("CopySourceSSECustomerKey", "CopySourceSSECustomerAlgorithm")]

/-- No customer's key is there without its algorithm. -/
def Accompanied (params : NameMap String) : Prop :=
  ∀ pair ∈ keys, (params.get? pair.1).isSome = true → (params.get? pair.2).isSome = true

instance (params : NameMap String) : Decidable (Accompanied params) :=
  inferInstanceAs (Decidable (∀ pair ∈ keys, _ → _))

/-- A key's companion is the option of its algorithm, which the same operations take. -/
theorem exists_algorithm_row : ∀ pair ∈ keys, ∀ p ∈ table, p.name = pair.1 →
    ∃ q ∈ table, q.name = pair.2 ∧ q.takenBy = p.takenBy ∧ q.companion = none ∧
      p.companion = some q.option := by
  simp [keys, table]

theorem due_algorithm {op : Operation} {o : Options} {pair : String × String} (mem : pair ∈ keys)
    {key : String} (due : Due op o pair.1 key) : ∃ algorithm, Due op o pair.2 algorithm := by
  obtain ⟨p, row, named, taken, given, -⟩ := due
  obtain ⟨q, qrow, qnamed, qtaken, alone, companion⟩ := exists_algorithm_row pair mem p row named
  obtain ⟨algorithm, set, some_text⟩ := given q.option companion
  refine ⟨algorithm, q, qrow, qnamed, qtaken ▸ taken, ?_, set, some_text⟩
  simp [alone]

theorem get?_apply_eq_some_iff {op : Operation} {o : Options} {params : NameMap String}
    {name value : String} : (op.apply o params).get? name = some value ↔
      Due op o name value ∨ (∀ v, ¬ Due op o name v) ∧ params.get? name = some value := by
  rw [get?_apply]
  simp only [← sends_eq_some_iff]
  cases op.sends o name with
  | none => simp
  | some v => simp

theorem isSome_get?_apply_iff {op : Operation} {o : Options} {params : NameMap String}
    {name : String} : ((op.apply o params).get? name).isSome = true ↔
      (∃ v, Due op o name v) ∨ (params.get? name).isSome = true := by
  rw [get?_apply, Option.isSome_or, Bool.or_eq_true]
  simp only [← sends_eq_some_iff, Option.isSome_iff_exists]

theorem accompanied_apply {params : NameMap String} (kept : Accompanied params) (op : Operation)
    (o : Options) : Accompanied (op.apply o params) := by
  intro pair mem key
  rw [isSome_get?_apply_iff] at key ⊢
  rcases key with ⟨key, due⟩ | old
  · exact .inl (due_algorithm mem due)
  · exact .inr (kept pair mem old)

/-- The parameters after several operations, each with options of its own. -/
def applyEach (params : NameMap String) : List (Operation × Options) → NameMap String
  | [] => params
  | (op, o) :: steps => applyEach (op.apply o params) steps

theorem accompanied_applyEach (steps : List (Operation × Options)) (params : NameMap String)
    (kept : Accompanied params) : Accompanied (applyEach params steps) := by
  induction steps generalizing params with
  | nil => exact kept
  | cons step steps ih => exact ih _ (accompanied_apply kept step.1 step.2)

/-- What an operation makes of parameters is what was there, overridden by what is due to it; and
no customer's key comes to stand without its algorithm, whatever operations follow each other. -/
theorem parameters_follow_table (params : NameMap String) :
    (∀ op o name value, (op.apply o params).get? name = some value ↔
      Due op o name value ∨ (∀ v, ¬ Due op o name v) ∧ params.get? name = some value) ∧
    (Accompanied params → ∀ steps, Accompanied (applyEach params steps)) :=
  ⟨fun _ _ _ _ => get?_apply_eq_some_iff, fun kept steps => accompanied_applyEach steps params kept⟩

/-- A request with a customer's key. -/
def keyedRequest : NameMap String :=
  .ofList [("Bucket", "photos"), ("SSECustomerAlgorithm", "AES256"), ("SSECustomerKey", "old")]

/-- A new key, and an algorithm that is empty. -/
def loneKey : Options := { noOptions with customerKey := some "new", customerAlgorithm := some "" }

/-- A key given without its algorithm is not sent: the key that was there stays, beside the
algorithm that it came with. -/
theorem lone_key_is_not_sent :
    Accompanied keyedRequest ∧
      Accompanied (applyEach keyedRequest [(.uploadPart, loneKey), (.copyObject, loneKey)]) ∧
      (Operation.uploadPart.apply loneKey keyedRequest).get? "SSECustomerKey" = some "old" := by
  have kept : Accompanied keyedRequest := by decide
  have nothing_due : ∀ v, ¬ Due .uploadPart loneKey "SSECustomerKey" v := by
    intro v due
    cases sends_eq_some_iff.2 due
  exact ⟨kept, (parameters_follow_table keyedRequest).2 kept _,
    ((parameters_follow_table keyedRequest).1 _ _ _ _).2 (.inr ⟨nothing_due, by decide⟩)⟩

end Ferry.Request
