import Ferry.Proofs.Store.Listing

/-!
Paths and addresses. A path divides into what it was put together from: its first slash is the one
after the bucket, as long as the bucket has none itself (`ofPath_path`). The other way round, what a
path divides into goes together to the path again where there is a slash to divide it at
(`path_ofPath_iff`). A scheme in front is dropped, once; a path that seems to start with one without
being given one is that of a bucket called `s3:`, with a key that starts with a slash
(`path_eq_scheme_append_iff`). Listings hand objects out under such paths (`Lister.path_of_object`),
so that all of this is about them.
-/
namespace Ferry.Store

open Ferry.Text

namespace Address

variable {a : Address} {p : String}

theorem toList_path (a : Address) : a.path.toList = a.bucket.toList ++ '/' :: a.key.toList := by
  rw [path, String.toList_append, String.toList_append, List.append_assoc]
  rfl

theorem ofPath_path (plain : '/' ∉ a.bucket.toList) : ofPath a.path = a := by
  rw [ofPath, toList_path, cutFirst_append plain]
  show Address.mk (String.ofList a.bucket.toList) (String.ofList a.key.toList) = a
  rw [String.ofList_toList, String.ofList_toList]

theorem ofPath_of_not_mem (whole : '/' ∉ p.toList) : ofPath p = ⟨p, ""⟩ := by
  rw [ofPath, cutFirst_eq_none_iff.2 whole]

theorem bucket_ofPath (p : String) : '/' ∉ (ofPath p).bucket.toList := by
  rw [ofPath]
  split
  · rename_i bucket key cut
    show '/' ∉ (String.ofList bucket).toList
    rw [String.toList_ofList]
    exact (eq_append_of_cutFirst cut).2
  · rename_i whole
    exact cutFirst_eq_none_iff.1 whole

theorem path_ofPath_iff (p : String) : (ofPath p).path = p ↔ '/' ∈ p.toList := by
  constructor
  · intro together
    rw [← together, toList_path]
    exact List.mem_append_right _ List.mem_cons_self
  · intro slash
    apply String.toList_injective
    rw [toList_path, ofPath]
    split
    · rename_i bucket key cut
      rw [(eq_append_of_cutFirst cut).1, String.toList_ofList, String.toList_ofList]
    · rename_i whole
      exact absurd slash (cutFirst_eq_none_iff.1 whole)

/-- A key is no longer than its path. -/
theorem length_key_ofPath_le (p : String) : (ofPath p).key.length ≤ p.length := by
  by_cases slash : '/' ∈ p.toList
  · have together := congrArg String.length ((path_ofPath_iff p).2 slash)
    rw [path, String.length_append, String.length_append] at together
    omega
  · rw [ofPath_of_not_mem slash]
    exact Nat.zero_le _

theorem ofUrl_scheme_append (p : String) : ofUrl (scheme ++ p) = ofPath p := by
  have lead : afterLead? scheme.toList (scheme ++ p).toList = some p.toList :=
    afterLead?_eq_some_iff.2 String.toList_append
  rw [ofUrl, lead]
  show ofPath (String.ofList p.toList) = ofPath p
  rw [String.ofList_toList]

theorem ofUrl_of_no_scheme (none : ∀ rest, p ≠ scheme ++ rest) : ofUrl p = ofPath p := by
  rw [ofUrl]
  split
  · rename_i rest lead
    refine absurd ?_ (none (String.ofList rest))
    apply String.toList_injective
    rw [afterLead?_eq_some_iff.1 lead, String.toList_append, String.toList_ofList]
  · rfl

/-- The only paths that start with a scheme they were not given. -/
theorem path_eq_scheme_append_iff (plain : '/' ∉ a.bucket.toList) (rest : String) :
    a.path = scheme ++ rest ↔ a = ⟨"s3:", "/" ++ rest⟩ := by
  have seeming : path ⟨"s3:", "/" ++ rest⟩ = scheme ++ rest := by
    rw [path, ← String.append_assoc]
    rfl
  constructor
  · intro lead
    -- both addresses are what this one path divides into
    have no_slash : '/' ∉ "s3:".toList := by decide
    rw [← ofPath_path plain, lead, ← seeming]
    exact ofPath_path no_slash
  · rintro rfl
    exact seeming

/-- A path with a scheme that it was not given does not divide into its address: the key would be
longer than what is divided. -/
theorem ofUrl_path_iff (plain : '/' ∉ a.bucket.toList) :
    ofUrl a.path = a ↔ ¬(a.bucket = "s3:" ∧ ∃ rest, a.key = "/" ++ rest) := by
  constructor
  · rintro same ⟨bucket, rest, key⟩
    have seems : a = ⟨"s3:", "/" ++ rest⟩ := by rw [← bucket, ← key]
    rw [(path_eq_scheme_append_iff plain rest).2 seems, ofUrl_scheme_append] at same
    have fits := length_key_ofPath_le rest
    have longer : ("/" ++ rest).length = rest.length + 1 := by
      rw [String.length_append, Nat.add_comm]
      rfl
    rw [same, key, longer] at fits
    exact Nat.not_succ_le_self _ fits
  · intro other
    rw [ofUrl_of_no_scheme, ofPath_path plain]
    intro rest lead
    obtain rfl := (path_eq_scheme_append_iff plain rest).1 lead
    exact other ⟨rfl, rest, rfl⟩

end Address

namespace Lister

variable {l : Lister} {bucket path : String} {o : Object}

theorem path_of_mem_objects {objects : List Object}
    (mem : .object path o ∈ objects.map fun o => Answer.object (bucket ++ "/" ++ o.key) o) :
    path = Address.path ⟨bucket, o.key⟩ := by
  obtain ⟨o', -, same⟩ := List.mem_map.1 mem
  cases same
  rfl

theorem path_of_mem_answers {source : List Pull}
    (mem : .object path o ∈ l.answers bucket source) : path = Address.path ⟨bucket, o.key⟩ := by
  rw [answers, List.mem_append] at mem
  cases mem with
  | inl object => exact path_of_mem_objects object
  | inr last =>
    -- the answer after all objects is no object
    unfold ending at last
    split at last
    · simp at last
    · split at last <;> simp at last
    · simp at last
    · simp at last

/-- An object is handed out with the path of its address. -/
theorem path_of_object {w : Listing} {n : Nat}
    (handed : (l.next (l.after w n)).1 = .object path o) :
    path = Address.path ⟨w.bucket, o.key⟩ := by
  rw [getD_outlook] at handed
  have mem : .object path o ∈ l.outlook w := by
    rw [List.getD_eq_getElem?_getD] at handed
    cases found : (l.outlook w)[n]? with
    | none =>
      rw [found] at handed
      exact nomatch handed
    | some answer =>
      rw [found, Option.getD_some] at handed
      exact handed ▸ List.mem_of_getElem? found
  rw [outlook, List.mem_append] at mem
  cases mem with
  | inl ready => exact path_of_mem_objects ready
  | inr later =>
    split at later
    · simp at later
    · exact path_of_mem_answers later

/-- Someone who lists buckets with one object each. -/
def ofOne (key : String) : Lister where
  paginate _ := [.page ⟨[⟨key, "", 0, none, none⟩], [], false, none⟩]
  readTime _ := some ⟨0, 0⟩

end Lister

/-- The path of an object that is handed out, of any listing of a bucket without slashes, divides
into that bucket and the key of the object, and so it does with a scheme in front. With none in
front it does unless it seems to start with one. Objects of any key are handed out, of any bucket.
And any path divides into a bucket without slashes and a key that make the path again exactly if
there is a slash in it. -/
theorem Address.listed_paths_divide_again :
    (∀ (l : Lister) (w : Listing) (n : Nat) (path : String) (o : Object),
      (l.next (l.after w n)).1 = .object path o → '/' ∉ w.bucket.toList →
      ofPath path = ⟨w.bucket, o.key⟩ ∧
      ofUrl ("s3://" ++ path) = ⟨w.bucket, o.key⟩ ∧
      (ofUrl path = ⟨w.bucket, o.key⟩ ↔
        ¬(w.bucket = "s3:" ∧ ∃ rest, o.key = "/" ++ rest))) ∧
    (∀ bucket key : String, ∃ (l : Lister) (path : String) (o : Object),
      (l.next (l.list (.all bucket) .start)).1 = .object path o ∧ o.key = key) ∧
    (∀ p : String,
      '/' ∉ (ofPath p).bucket.toList ∧
      ((ofPath p).bucket ++ "/" ++ (ofPath p).key = p ↔ '/' ∈ p.toList) ∧
      ('/' ∉ p.toList → ofPath p = ⟨p, ""⟩) ∧
      ofUrl ("s3://" ++ p) = ofPath p) := by
  refine ⟨fun l w n path o handed plain => ?_, fun bucket key => ?_, fun p => ?_⟩
  · obtain rfl := Lister.path_of_object handed
    have divides : ofPath (Address.path ⟨w.bucket, o.key⟩) = ⟨w.bucket, o.key⟩ := ofPath_path plain
    exact ⟨divides, (ofUrl_scheme_append _).trans divides, ofUrl_path_iff plain⟩
  · exact ⟨Lister.ofOne key, _, _, rfl, rfl⟩
  · exact ⟨bucket_ofPath p, path_ofPath_iff p, ofPath_of_not_mem, ofUrl_scheme_append p⟩

/-- An object with the key `//a`: in a bucket without a name its path divides again, and in the
bucket `s3:` it seems to start with a scheme. -/
theorem Address.slashes_in_front_of_key :
    '/' ∉ "s3:".toList ∧
    ofPath "///a" = ⟨"", "//a"⟩ ∧ ofUrl "///a" = ⟨"", "//a"⟩ ∧
    ofPath "s3:///a" = ⟨"s3:", "//a"⟩ ∧ ofUrl "s3:///a" ≠ ⟨"s3:", "//a"⟩ := by
  let l := Lister.ofOne "//a"
  have nameless := listed_paths_divide_again.1 l (l.list (.all "") .start) 0 "///a" _ rfl
    (by decide)
  have seeming := listed_paths_divide_again.1 l (l.list (.all "s3:") .start) 0 "s3:///a" _ rfl
    (by decide)
  exact ⟨by decide, nameless.1, nameless.2.2.2 fun other => absurd other.1 (by decide),
    seeming.1, fun same => seeming.2.2.1 same ⟨rfl, "/a", rfl⟩⟩

end Ferry.Store
