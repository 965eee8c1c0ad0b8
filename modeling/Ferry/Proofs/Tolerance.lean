import Ferry.Proofs.Json.Change
import Ferry.Proofs.Settings

/-!
The records that travel as JSON are read of a text no matter what else its objects hold, in which
order, and how deep: a service may say more than it did. Where it says less, and leaves out what
need not be there, the rest is read as before.
-/
namespace Ferry

open Json

namespace Store

/-- The names of an object. -/
def objectShape : Shape := .flat ["Key", "LastModified", "Size", "ETag", "StorageClass"]

def Listed.resets : List (String × (Listed → Listed)) :=
  [("ETag", fun o => { o with eTag := none }),
    ("StorageClass", fun o => { o with storageClass := none })]

def Object.resets : List (String × (Object → Object)) :=
  [("ETag", fun o => { o with eTag := none }),
    ("StorageClass", fun o => { o with storageClass := none })]

def SharedBeginning.shape : Shape := .flat ["Prefix"]

/-- The names of a page, and those of what is listed in it. -/
def Page.shape : Shape :=
  .record [("Contents", .list objectShape), ("CommonPrefixes", .list SharedBeginning.shape),
    ("IsTruncated", .plain), ("NextContinuationToken", .plain)]

def Page.resets : List (String × (Page → Page)) :=
  [("Contents", fun p => { p with contents := [] }),
    ("CommonPrefixes", fun p => { p with shared := [] }),
    ("IsTruncated", fun p => { p with isTruncated := false }),
    ("NextContinuationToken", fun p => { p with nextToken := none })]

/-- Something is left out of a page, or of one of the objects that it lists. -/
inductive Page.LeavesOut : Tree → Tree → (Page → Page) → Prop
  | own {t t' : Tree} {reset : Page → Page} (left_out : Tree.LeavesOut Page.resets t t' reset) :
      LeavesOut t t' reset
  | listed {space : Space} {front back : List (Labelled Tree)} {m : Labelled Tree} {t : Tree}
      {reset : List Listed → List Listed} (named : m.name.value = .ok "Contents")
      (left_out : Tree.ItemLeavesOut (Tree.LeavesOut Listed.resets) m.value.value t reset) :
      LeavesOut (.object space (front ++ m :: back)) (.object space (front ++ m.put t :: back))
        fun p => { p with contents := reset p.contents }

def CopySource.shape : Shape := .flat ["Bucket", "Key", "VersionId"]

def CopySource.resets : List (String × (CopySource → CopySource)) :=
  [("VersionId", fun s => { s with version := none })]

variable {zone : Time.Zone}

theorem instantCodec_plain : (instantCodec zone).Plain :=
  ⟨fun _ _ _ => nofun, fun _ _ _ => nofun⟩

theorem objectFields_plain {α : Type} {time : Codec α} (plain : time.Plain) :
    ∀ f ∈ objectFields time, f.codec.Plain := by
  simp only [List.forall_mem_cons]
  exact ⟨Codec.text_plain, plain, Codec.word_plain _, Codec.optionalText_plain,
    Codec.optionalText_plain, List.forall_mem_nil _⟩

theorem Listed.codec_bears : Listed.codec.Bears objectShape :=
  (Codec.record_bears_flat (by decide) (objectFields_plain Codec.text_plain)).iso _ _

theorem Object.codec_bears : (Object.codec zone).Bears objectShape :=
  (Codec.record_bears_flat (objectFields_nodup _) (objectFields_plain instantCodec_plain)).iso _ _

theorem SharedBeginning.codec_bears : SharedBeginning.codec.Bears SharedBeginning.shape := by
  refine (Codec.record_bears_flat (by decide) ?_).iso _ _
  exact List.forall_mem_cons.2 ⟨Codec.text_plain, List.forall_mem_nil _⟩

theorem CopySource.codec_bears : CopySource.codec.Bears CopySource.shape := by
  refine (Codec.record_bears_flat (by decide) ?_).iso _ _
  simp only [List.forall_mem_cons]
  exact ⟨Codec.text_plain, Codec.text_plain, Codec.optionalText_plain, List.forall_mem_nil _⟩

theorem Page.codec_bears : Page.codec.Bears Page.shape := by
  refine (Codec.record_bears (by decide) ?_).iso _ _
  exact .cons ⟨rfl, Listed.codec_bears.list⟩ <| .cons ⟨rfl, SharedBeginning.codec_bears.list⟩ <|
    .cons ⟨rfl, Codec.flag_plain.bears _⟩ <| .cons ⟨rfl, Codec.optionalText_plain.bears _⟩ .nil

theorem Listed.codec_bears_loss : Listed.codec.BearsLoss (Tree.LeavesOut Listed.resets) := by
  refine Codec.record_bears_loss (by decide) ?_
  simp only [Resets, Listed.resets, List.forall_mem_cons]
  exact ⟨⟨by decide, fun _ => rfl⟩, ⟨by decide, fun _ => rfl⟩, List.forall_mem_nil _⟩

theorem Object.codec_bears_loss :
    (Object.codec zone).BearsLoss (Tree.LeavesOut Object.resets) := by
  refine Codec.record_bears_loss (objectFields_nodup _) ?_
  simp only [Resets, Object.resets, List.forall_mem_cons]
  have eTag : Field.maybeText "ETag" ∈ objectFields (instantCodec zone) := by simp
  have storageClass : Field.maybeText "StorageClass" ∈ objectFields (instantCodec zone) := by simp
  exact ⟨⟨⟨_, eTag, rfl, rfl⟩, fun _ => rfl⟩, ⟨⟨_, storageClass, rfl, rfl⟩, fun _ => rfl⟩,
    List.forall_mem_nil _⟩

theorem CopySource.codec_bears_loss :
    CopySource.codec.BearsLoss (Tree.LeavesOut CopySource.resets) := by
  refine Codec.record_bears_loss (by decide) ?_
  exact List.forall_mem_cons.2 ⟨⟨by decide, fun _ => rfl⟩, List.forall_mem_nil _⟩

theorem Page.codec_bears_loss : Page.codec.BearsLoss Page.LeavesOut := by
  intro t t' reset p left_out read
  cases left_out with
  | own left_out =>
    refine Codec.record_bears_loss (by decide) ?_ left_out read
    simp only [Resets, Page.resets, List.forall_mem_cons]
    exact ⟨⟨by decide, fun _ => rfl⟩, ⟨by decide, fun _ => rfl⟩, ⟨by decide, fun _ => rfl⟩,
      ⟨by decide, fun _ => rfl⟩, List.forall_mem_nil _⟩
  | listed named left_out =>
    obtain ⟨⟨contents, others⟩, own, rfl⟩ := exists_of_map_eq_ok read
    exact congrArg (Except.map _)
      (Codec.record_leave_out_first (by decide) Listed.codec_bears_loss.list named left_out own)

end Store

theorem Outcome.codec_bears : Outcome.codec.Bears (.flat ["message", "error", "warning"]) := by
  refine (Codec.record_bears_flat (by decide) ?_).iso _ _
  simp only [List.forall_mem_cons]
  exact ⟨Codec.text_plain, Codec.flag_plain, Codec.flag_plain, List.forall_mem_nil _⟩

namespace Request

def Options.resets : List (String × (Options → Options)) :=
  [("sse", fun o => { o with encryption := none }),
    ("sse_kms_key_id", fun o => { o with encryptionKeyId := none }),
    ("sse_c", fun o => { o with customerAlgorithm := none }),
    ("sse_c_key", fun o => { o with customerKey := none }),
    ("sse_c_copy_source", fun o => { o with sourceAlgorithm := none }),
    ("sse_c_copy_source_key", fun o => { o with sourceKey := none }),
    ("acl", fun o => { o with acl := none }),
    ("storage_class", fun o => { o with storageClass := none }),
    ("website_redirect", fun o => { o with redirect := none }),
    ("content_type", fun o => { o with contentType := none }),
    ("cache_control", fun o => { o with cacheControl := none }),
    ("content_disposition", fun o => { o with contentDisposition := none }),
    ("content_encoding", fun o => { o with contentEncoding := none }),
    ("content_language", fun o => { o with contentLanguage := none }),
    ("expires", fun o => { o with expires := none }),
    ("metadata_directive", fun o => { o with metadataDirective := none }),
    ("request_payer", fun o => { o with payer := none })]

/-- The names of the options. Each may be left out. -/
def Options.names : List String := Options.resets.map (·.1)

theorem Options.codec_bears : Options.codec.Bears (.flat Options.names) := by
  refine (Codec.record_bears_flat (by decide) fun f mem => ?_).iso _ _
  obtain ⟨name, -, rfl⟩ : ∃ name ∈ Options.names, optionField name = f := List.mem_map.1 mem
  exact Codec.optionalText_plain

theorem Options.codec_bears_loss : Options.codec.BearsLoss (Tree.LeavesOut Options.resets) := by
  refine Codec.record_bears_loss (by decide) ?_
  simp only [Resets, Options.resets, List.forall_mem_cons]
  repeat' first | refine ⟨⟨by decide, fun _ => rfl⟩, ?_⟩ | exact List.forall_mem_nil _

end Request

namespace Settings

def resets : List (String × (Settings → Settings)) :=
  [("multipart_threshold", fun s => { s with threshold := initial.threshold }),
    ("multipart_chunksize", fun s => { s with partSize := initial.partSize }),
    ("max_queue_size", fun s => { s with queueCapacity := initial.queueCapacity }),
    ("max_priority", fun s => { s with maxPriority := initial.maxPriority }),
    ("max_concurrent_requests", fun s => { s with maxRequests := initial.maxRequests })]

theorem sizeCodec_plain : sizeCodec.Plain where
  no_array _ _ _ := fun read => nomatch sizeCodec_eq_ok_iff.1 read
  no_object _ _ _ := fun read => nomatch sizeCodec_eq_ok_iff.1 read

theorem codec_bears : codec.Bears (.flat names) := by
  refine (Codec.record_bears_flat (by decide) ?_).iso _ _
  simp only [List.forall_mem_cons]
  exact ⟨sizeCodec_plain, sizeCodec_plain, Codec.word_plain _, Codec.signedWord_plain _,
    Codec.word_plain _, List.forall_mem_nil _⟩

theorem codec_bears_loss : codec.BearsLoss (Tree.LeavesOut resets) := by
  refine Codec.record_bears_loss (by decide) ?_
  simp only [Resets, resets, List.forall_mem_cons]
  exact ⟨⟨by decide, fun _ => rfl⟩, ⟨by decide, fun _ => rfl⟩, ⟨by decide, fun _ => rfl⟩,
    ⟨by decide, fun _ => rfl⟩, ⟨by decide, fun _ => rfl⟩, List.forall_mem_nil _⟩

end Settings

/-- A type whose texts may say more than its shape knows, and what they say in any order: they are
read as before. So they are, but for one default, where they leave something out. Texts that are
read are documents, whatever the space around their values, and there is one for each value. -/
structure Json.Codec.Tolerates {α : Type} (c : Codec α) (isValue : α → Prop) (shape : Shape)
    (leavesOut : Tree → Tree → (α → α) → Prop) : Prop where
  told : ∀ a, isValue a → ∃ doc : Document, c.readText (.ofString doc.text) = .ok a
  written : ∀ text a, c.readText (.ofString text) = .ok a → ∃ doc : Document, doc.text = text
  changed : ∀ (doc doc' : Document) a,
    Relation.ReflTransGen (Tree.Change shape) doc.value doc'.value →
      c.readText (.ofString doc.text) = .ok a → c.readText (.ofString doc'.text) = .ok a
  left_out : ∀ (doc doc' : Document) reset a, leavesOut doc.value doc'.value reset →
    c.readText (.ofString doc.text) = .ok a → c.readText (.ofString doc'.text) = .ok (reset a)

namespace Json

theorem Codec.readText_document {α : Type} {c : Codec α} {doc : Document} {a : α} :
    c.readText (.ofString doc.text) = .ok a ↔ c.read doc.value.draft = .ok a := by
  rw [Codec.readText_eq_ok_iff, Reading.ofString_text]
  exact and_iff_left rfl

theorem Codec.exists_document {α : Type} {c : Codec α} {text : String} {a : α}
    (read : c.readText (.ofString text) = .ok a) : ∃ doc : Document, doc.text = text :=
  Reading.after_eq_none_iff.1 (Codec.readText_eq_ok_iff.1 read).2

theorem Codec.tolerates_of_bears {α : Type} {c : Codec α} {isValue : α → Prop} {shape : Shape}
    {leavesOut : Tree → Tree → (α → α) → Prop} (keeps : ∀ a, isValue a → c.Keeps a)
    (bears : c.Bears shape) (bears_loss : c.BearsLoss leavesOut) :
    c.Tolerates isValue shape leavesOut where
  told a isValue := by
    have back := (keeps a isValue).readText_writeText
    obtain ⟨doc, written⟩ := Codec.exists_document back
    exact ⟨doc, by rw [written, back]⟩
  written text a read := Codec.exists_document read
  changed doc doc' a changes read := by
    rw [Codec.readText_document] at read ⊢
    exact bears.changes changes read
  left_out doc doc' reset a left_out read := by
    rw [Codec.readText_document] at read ⊢
    exact bears_loss left_out read

end Json

open Store Request

/-- Every record that travels as JSON is read the same of a text with more members under names that
it does not know, whatever their values, and with the members of any object in any order; the
objects and beginnings listed in a page too. Without a member that need not be there it is read
with the default of that field. -/
theorem records_tolerate_growth :
    Listed.codec.Tolerates (fun _ => True) objectShape (Tree.LeavesOut Listed.resets) ∧
      (∀ zone : Time.Zone, (Object.codec zone).Tolerates
        (fun o => o.lastModified.IsStamped ∧ zone.Tells o.lastModified) objectShape
          (Tree.LeavesOut Object.resets)) ∧
      Page.codec.Tolerates (fun _ => True) Page.shape Page.LeavesOut ∧
      SharedBeginning.codec.Tolerates (fun _ => True) SharedBeginning.shape (Tree.LeavesOut []) ∧
      CopySource.codec.Tolerates (fun _ => True) CopySource.shape
        (Tree.LeavesOut CopySource.resets) ∧
      Options.codec.Tolerates (fun _ => True) (.flat Options.names)
        (Tree.LeavesOut Options.resets) ∧
      Outcome.codec.Tolerates (fun _ => True) (.flat ["message", "error", "warning"])
        (Tree.LeavesOut []) ∧
      Settings.codec.Tolerates (fun _ => True) (.flat Settings.names)
        (Tree.LeavesOut Settings.resets) := by
  refine ⟨?_, ?_, ?_, ?_, ?_, ?_, ?_, ?_⟩
  · exact Codec.tolerates_of_bears (fun o _ => o.codec_keeps) Listed.codec_bears
      Listed.codec_bears_loss
  · exact fun zone => Codec.tolerates_of_bears (fun o told => o.codec_keeps told.1 told.2)
      Object.codec_bears Object.codec_bears_loss
  · exact Codec.tolerates_of_bears (fun p _ => p.codec_keeps) Page.codec_bears
      Page.codec_bears_loss
  · exact Codec.tolerates_of_bears (fun s _ => s.codec_keeps) SharedBeginning.codec_bears
      Codec.bearsLoss_nil
  · exact Codec.tolerates_of_bears (fun s _ => s.codec_keeps) CopySource.codec_bears
      CopySource.codec_bears_loss
  · exact Codec.tolerates_of_bears (fun o _ => o.codec_keeps) Options.codec_bears
      Options.codec_bears_loss
  · exact Codec.tolerates_of_bears (fun o _ => o.codec_keeps) Outcome.codec_bears
      Codec.bearsLoss_nil
  · exact Codec.tolerates_of_bears (fun s _ => s.codec_keeps) Settings.codec_bears
      Settings.codec_bears_loss

end Ferry
