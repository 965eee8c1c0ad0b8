import Ferry.Store.Address
import Ferry.Store.Object
import Ferry.NameMap

/-!
Listing a bucket. Pages come one by one from the service; a page is asked for only when every
object of the ones before it has been handed out, and its times are all read before its first
object is. A tally records what was asked for, so that the order of these effects can be seen.
-/
namespace Ferry.Store

open Ferry.Text Ferry.Time

/-- What a listing asks for. -/
structure ListRequest where
  bucket : String
  keyStart : Option String
  pageSize : Option Nat
  extra : NameMap String

/-- A listing of a whole bucket. -/
def ListRequest.all (bucket : String) : ListRequest := ⟨bucket, none, none, .empty⟩

/-- Why a listing stops early. -/
inductive ListError
  /-- The service gave no page. -/
  | request (reason : String)
  /-- The time of an object cannot be read. -/
  | timestamp (key value : String)
deriving DecidableEq, Repr

def ListError.message : ListError → String
  | .request reason => "list objects request failed: " ++ reason
  | .timestamp key value =>
    "invalid LastModified timestamp " ++ quoted value ++ " for key " ++ key

/-- The answer to asking for the next page. -/
inductive Pull
  | page (p : Page)
  | failed (reason : String)
  | over
deriving DecidableEq, Repr

/-- What has been done so far: requests sent, pages and failures received, times read. -/
structure Tally where
  requests : List ListRequest
  pulled : Nat
  read : List String

/-- Nothing done yet. -/
def Tally.start : Tally := ⟨[], 0, []⟩

/-- A listing under way. -/
structure Listing where
  bucket : String
  /-- Objects of the current page not handed out yet. -/
  ready : List Object
  finished : Bool
  /-- What the service will answer to the next pulls; after the last one, `over`. -/
  source : List Pull
  tally : Tally

/-- Someone who lists buckets: how the service answers a request, and how times are read. -/
structure Lister where
  paginate : ListRequest → List Pull
  readTime : String → Option Instant

/-- What a listing hands out next. -/
inductive Answer
  | object (path : String) (o : Object)
  | failed (e : ListError)
  | over
deriving DecidableEq, Repr

namespace Lister

/-- Starts a listing: the request is sent, and nothing else is done. -/
def list (l : Lister) (request : ListRequest) (tally : Tally) : Listing where
  bucket := request.bucket
  ready := []
  finished := false
  source := l.paginate request
  tally := { tally with requests := tally.requests ++ [request] }

/-- Starts a listing of what a bucket holds under keys with some beginning, all of them if none is
given, in pages of so many keys. Other parameters are those of the request, or none. -/
def listObjects (l : Lister) (bucket : String) (keyStart : Option String) (pageSize : Option Nat)
    (extra : Option (NameMap String)) (tally : Tally) : Listing :=
  l.list { ListRequest.all bucket with keyStart, pageSize, extra := extra.getD .empty } tally

/-- The objects of a page up to the first whose time cannot be read, with the times that were tried
and the error of that one. -/
def readObjects (l : Lister) : List Listed → List String × Except ListError (List Object)
  | [] => ([], .ok [])
  | o :: os =>
    match l.readTime o.lastModified with
    | none => ([o.lastModified], .error (.timestamp o.key o.lastModified))
    | some t =>
      let (tried, rest) := l.readObjects os
      (o.lastModified :: tried, rest.map (o.at t :: ·))

/-- Hands out the first object that is ready, its path being its address. -/
def handOut (w : Listing) (o : Object) (rest : List Object) : Answer × Listing :=
  (.object (Address.path ⟨w.bucket, o.key⟩) o, { w with ready := rest })

/-- Pulls pages until one has objects, fails or is the end. `w` is the listing with nothing ready,
and the list is what it will be answered. -/
def pull (l : Lister) (w : Listing) : List Pull → Answer × Listing
  | [] => (.over, { w with finished := true, source := [] })
  | .over :: source => (.over, { w with finished := true, source })
  | .failed reason :: source =>
    (.failed (.request reason),
      { w with finished := true, source, tally.pulled := w.tally.pulled + 1 })
  | .page p :: source =>
    let (tried, objects) := l.readObjects p.contents
    let tally := { w.tally with pulled := w.tally.pulled + 1, read := w.tally.read ++ tried }
    match objects with
    | .error e => (.failed e, { w with finished := true, source, tally })
    | .ok [] => l.pull { w with tally } source
    | .ok (o :: rest) => handOut { w with source, tally } o rest

/-- The next answer of a listing. After a failure or the end there is nothing more. -/
def next (l : Lister) (w : Listing) : Answer × Listing :=
  match w.ready with
  | o :: rest => handOut w o rest
  | [] => if w.finished then (.over, w) else l.pull w w.source

end Lister
end Ferry.Store
