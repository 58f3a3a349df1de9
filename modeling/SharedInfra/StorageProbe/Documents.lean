import SharedInfra.Python.IpText

/-!
# The answers of an object store

Parsed XML documents, as `xml.etree` gives them, and what `probe-object-storage.py` reads from
the answer to a request: the code of an error, the versioning of a bucket, its objects and
their versions.
-/

namespace SharedInfra.StorageProbe

open Python

/-- An element of a document; tags carry their namespace. -/
inductive Xml where
  | node (tag : Str) (text : Option Str) (children : List Xml)

namespace Xml

def tag : Xml → Str
  | node tag _ _ => tag

def text : Xml → Option Str
  | node _ text _ => text

def children : Xml → List Xml
  | node _ _ children => children

mutual

/-- `element.iter()`: the element and all below it. -/
def iter : Xml → List Xml
  | node tag text children => node tag text children :: iterAll children

def iterAll : List Xml → List Xml
  | [] => []
  | x :: xs => iter x ++ iterAll xs

end

/-- `element.findtext(name)`. -/
def findtext (x : Xml) (name : Str) : Option Str :=
  (x.children.find? fun child => child.tag == name).map fun child => child.text.getD []

/-- `next((c.text for c in element if c.tag.endswith(name)), None)`. -/
def textOf (x : Xml) (name : String) : Option Str :=
  (x.children.find? fun child => endsWith child.tag name.toList).bind text

end Xml

/-- A text that is not empty, or nothing: what counts as true. -/
def truthy (s : Option Str) : Option Str := s.filter fun s => !s.isEmpty

/-- An answer; the body is the document it parses to, if it does. -/
structure Response where
  status : Nat
  body : Option Xml

def Response.ok (r : Response) : Bool := r.status == 200 || r.status == 204

def Response.errorCode (r : Response) : Option Str :=
  match r.body with
  | none => none
  | some root => truthy (some (strip ((truthy (root.findtext "Code".toList)).getD [])))

def Response.describe (r : Response) : Str :=
  match r.errorCode with
  | none => "HTTP ".toList ++ decimal r.status
  | some code => "HTTP ".toList ++ decimal r.status ++ " (".toList ++ code ++ ")".toList

/-- A tag of the S3 namespace. -/
def s3 (name : String) : Str :=
  "\x7bhttp://s3.amazonaws.com/doc/2006-03-01/\x7d".toList ++ name.toList

def versioningStatus (body : Option Xml) : Option Str :=
  match body with
  | none => none
  | some root =>
    match truthy (root.findtext (s3 "Status")) with
    | some status => some status
    | none => root.findtext "Status".toList

/-- `int(text)`, for a text that has been stripped: digits after a sign, if any. -/
def parseInt (s : Str) : Option Int :=
  match s with
  | '-' :: digits => if isAsciiDigits digits then some (-(decimalValue digits : Int)) else none
  | '+' :: digits => if isAsciiDigits digits then some (decimalValue digits : Int) else none
  | digits => if isAsciiDigits digits then some (decimalValue digits : Int) else none

def lifecycleNoncurrentDays (body : Option Xml) : Option Int :=
  match body with
  | none => none
  | some root =>
    match root.iter.find? fun element => endsWith element.tag "NoncurrentDays".toList &&
        !(strip (element.text.getD [])).isEmpty with
    | none => none
    | some element => parseInt (strip (element.text.getD []))

def countTag (name : String) (root : Xml) : Nat :=
  (root.iter.filter fun element => endsWith element.tag name.toList).length

def countVersions (body : Option Xml) : Nat :=
  match body with
  | none => 0
  | some root => countTag "Version" root

def countContents (body : Option Xml) : Option Nat := body.map (countTag "Contents")

def versionOf (element : Xml) : Option (Str × Str) :=
  if endsWith element.tag "Version".toList || endsWith element.tag "DeleteMarker".toList then
    match truthy (element.textOf "Key"), truthy (element.textOf "VersionId") with
    | some key, some version => some (key, version)
    | _, _ => none
  else none

def listedVersions (root : Xml) : List (Str × Str) := root.iter.filterMap versionOf

/-- What `PUT ?versioning` sets. -/
inductive Versioning where
  | enabled
  | suspended
deriving DecidableEq

def Versioning.text : Versioning → Str
  | .enabled => "Enabled".toList
  | .suspended => "Suspended".toList

/-- A version of an object, or a delete marker; `own` if the run has made it. -/
structure Version where
  key : Str
  id : Str
  marker : Bool
  own : Bool
deriving DecidableEq

/-- A bucket; its versions are the newest first. -/
structure Bucket where
  policy : Option Str
  lifecycle : Option Str
  versioning : Option Versioning
  versions : List Version
deriving DecidableEq

/-- The objects that a plain listing shows: the newest version of each key, if it is none of the
delete markers. -/
def Bucket.objects (b : Bucket) : List Version :=
  b.versions.filter fun v =>
    !v.marker && (b.versions.find? fun other => other.key == v.key) == some v

/-- `PUT` of an object under a new id; without versioning the `null` version is replaced. -/
def Bucket.put (b : Bucket) (key id : Str) : Bucket :=
  match b.versioning with
  | some .enabled => { b with versions := ⟨key, id, false, true⟩ :: b.versions }
  | _ =>
    { b with
      versions := ⟨key, "null".toList, false, true⟩ ::
        b.versions.filter fun v => !(v.key == key && v.id == "null".toList) }

/-- `DELETE` of one version. -/
def Bucket.delete (b : Bucket) (key id : Str) : Bucket :=
  { b with versions := b.versions.filter fun v => !(v.key == key && v.id == id) }

def Bucket.versionsUnder (b : Bucket) (start : Str) : List Version :=
  b.versions.filter fun v => startsWith v.key start

section Answers

def leaf (name : String) (text : Str) : Xml := .node (s3 name) (some text) []

def objectsDocument (keys : List Str) : Xml :=
  .node (s3 "ListBucketResult") none
    (keys.map fun key => .node (s3 "Contents") none [leaf "Key" key])

/-- The versioning of a bucket. -/
def versioningDocument (versioning : Option Versioning) : Xml :=
  .node (s3 "VersioningConfiguration") none (versioning.toList.map fun v => leaf "Status" v.text)

def versionElement (v : Version) : Xml :=
  .node (s3 (if v.marker then "DeleteMarker" else "Version")) none
    [leaf "Key" v.key, leaf "VersionId" v.id]

def versionsDocument (versions : List Version) : Xml :=
  .node (s3 "ListVersionsResult") none (versions.map versionElement)

def lifecycleAnswer (days : Str) : Xml :=
  .node (s3 "LifecycleConfiguration") none [.node (s3 "Rule") none
    [.node (s3 "NoncurrentVersionExpiration") none [leaf "NoncurrentDays" days]]]

variable {v : Version} {versions : List Version}

theorem versionOf_root (versions : List Version) : versionOf (versionsDocument versions) = none :=
  if_neg (by rw [versionsDocument, Xml.tag]; decide)

theorem versionOf_leaf {name : String} (text : Str)
    (h : (endsWith (s3 name) "Version".toList ||
      endsWith (s3 name) "DeleteMarker".toList) = false) :
    versionOf (leaf name text) = none :=
  if_neg (by rw [leaf, Xml.tag, h]; decide)

theorem truthy_of_ne_nil {s : Str} (h : s ≠ []) : truthy (some s) = some s := by
  rw [truthy, Option.filter_some, if_pos (by simp [h])]

theorem versionOf_versionElement (hkey : v.key ≠ []) (hid : v.id ≠ []) :
    versionOf (versionElement v) = some (v.key, v.id) := by
  have htag : (endsWith (versionElement v).tag "Version".toList ||
      endsWith (versionElement v).tag "DeleteMarker".toList) = true := by
    rw [versionElement, Xml.tag]
    cases v.marker <;> decide
  have hkeyText : (versionElement v).textOf "Key" = some v.key := rfl
  have hidText : (versionElement v).textOf "VersionId" = some v.id := rfl
  rw [versionOf, if_pos htag, hkeyText, hidText, truthy_of_ne_nil hkey, truthy_of_ne_nil hid]

theorem iterAll_versionElements : Xml.iterAll (versions.map versionElement) =
    versions.flatMap fun v => [versionElement v, leaf "Key" v.key, leaf "VersionId" v.id] := by
  induction versions with
  | nil => rfl
  | cons v versions ih =>
    rw [List.map_cons, Xml.iterAll, ih, List.flatMap_cons]
    rfl

theorem listedVersions_versionsDocument (h : ∀ v ∈ versions, v.key ≠ [] ∧ v.id ≠ []) :
    listedVersions (versionsDocument versions) = versions.map fun v => (v.key, v.id) := by
  have hroot : (versionsDocument versions).iter =
      versionsDocument versions :: Xml.iterAll (versions.map versionElement) := rfl
  rw [listedVersions, hroot, List.filterMap_cons_none (versionOf_root versions),
    iterAll_versionElements]
  induction versions with
  | nil => rfl
  | cons v versions ih =>
    obtain ⟨hkey, hid⟩ := h v List.mem_cons_self
    rw [List.flatMap_cons, List.filterMap_append, ih fun v hv => h v (List.mem_cons_of_mem _ hv),
      List.filterMap_cons_some (versionOf_versionElement hkey hid),
      List.filterMap_cons_none (versionOf_leaf v.key (by decide)),
      List.filterMap_cons_none (versionOf_leaf v.id (by decide))]
    · rfl
    · rfl

theorem versioningStatus_versioningDocument (versioning : Option Versioning) :
    versioningStatus (some (versioningDocument versioning)) = versioning.map Versioning.text := by
  rcases versioning with _ | _ | _ <;> decide

end Answers

end SharedInfra.StorageProbe
