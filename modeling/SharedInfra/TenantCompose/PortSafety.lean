import SharedInfra.TenantCompose.OneService

/-!
# No accepted port is published to every interface

For which entries that holds: `bindsOneAddress_iff`.  An entry that the rule lets through with
variables that can be supplied stands in a document that the judge accepts, so a misread entry is
really published.
-/

namespace SharedInfra.TenantCompose

open Python Sequences

section Accepted

variable {sha256 : Bytes → Str} {load : Str → Option Doc} {str_ : Scalar → Str} {params : Params}
  {v : Verdict} {document entry : Doc} {name host : Str} {profile : Profile} {a : HostAddress}

theorem holdsText_of_get {fields : List (Scalar × Doc)} {key : Str} {d : Doc} {t : Str}
    (hget : Doc.get fields key = d) (hd : d ≠ Doc.none_) (h : HoldsText d t) :
    HoldsText (.mapping fields) t := by
  rw [Doc.get] at hget
  cases hfound : Doc.get? fields key with
  | none =>
    rw [hfound] at hget
    exact absurd hget.symm hd
  | some value =>
    rw [hfound] at hget
    obtain rfl : value = d := hget
    exact .value (mem_of_lookup hfound) h

theorem holdsText_of_port {t : Str} (hport : PortOf document entry) (h : HoldsText entry t) :
    HoldsText document t := by
  obtain ⟨fields, services, key, service, ports, rfl, hservices, hservice, hports, hentry⟩ := hport
  have hlist : HoldsText (.list ports) t := .item hentry h
  have hmapping : HoldsText (.mapping service) t := holdsText_of_get hports (by rintro ⟨⟩) hlist
  exact holdsText_of_get hservices (by rintro ⟨⟩) (.value hservice hmapping)

theorem referenceNames_of_port (hport : PortOf document entry) (hname : name ∈ referenceNames entry) :
    name ∈ referenceNames document := by
  obtain ⟨text, htext, hfind⟩ := mem_referenceNames_iff.mp hname
  exact mem_referenceNames_iff.mpr
    ⟨text, mem_strings.mpr (holdsText_of_port hport (mem_strings.mp htext)), hfind⟩

theorem suppliable_of_mayInterpolate (h : MayInterpolate params name) :
    Suppliable params.profile name := by
  unfold MayInterpolate at h
  unfold Suppliable
  cases hprofile : params.profile with
  | tenant =>
    rw [hprofile] at h
    exact h.imp_right And.left
  | spool =>
    rw [hprofile] at h
    exact h

def BindsOneAddress (sha256 : Bytes → Str) (str_ : Scalar → Str) (profile : Profile)
    (entry : Doc) : Prop :=
  ∀ (load : Str → Option Doc) params v document, params.profile = profile →
    load params.composeText = some document → PortOf document entry →
    judge sha256 (some load) str_ params = .ok v → v.refusals = [] →
    ∃ a, composeAddress entry = some a ∧ ¬a.Unspecified ∧ (profile = .spool → a = loopback)

/-- An entry whose variables can be supplied and whose host the rule lets through is one that
Compose reads, and its address is neither `::` nor `::ffff:0.0.0.0`. -/
def ReadsItsHost (profile : Profile) (entry : Doc) : Prop :=
  (∀ name ∈ referenceNames entry, Suppliable profile name) →
    ∀ host, publishedAddress entry = some host → LetsThrough profile host →
      ∃ a, composeAddress entry = some a ∧ a ≠ .v6 0 ∧ a ≠ .v6 0xffff00000000

theorem loopback_of_writes (h : Writes spoolPublishAddress a) : a = loopback := by
  have h4 : ipv4Value spoolPublishAddress = some 0x7f000001 := by
    delta spoolPublishAddress
    simp only [toList_literal]
    rfl
  have h6 : ipv6Value spoolPublishAddress = none := by
    delta spoolPublishAddress
    simp only [toList_literal]
    rfl
  obtain ⟨n, hn, rfl⟩ | ⟨n, hn, -⟩ := h
  · obtain rfl := Option.some.inj (h4.symm.trans hn)
    rfl
  · cases h6.symm.trans hn

theorem specified_of_letsThrough (hthrough : LetsThrough profile host) (hwrites : Writes host a)
    (hzero : a ≠ .v6 0) (hmapped : a ≠ .v6 0xffff00000000) : ¬a.Unspecified := by
  obtain ⟨n, hn, rfl⟩ | ⟨n, -, rfl⟩ := hwrites
  · intro h
    obtain rfl : n = 0 := h
    obtain rfl := ipv4Value_eq_zero hn
    exact hthrough.1 (List.mem_cons_of_mem _ List.mem_cons_self)
  · rintro (rfl | rfl)
    · exact hzero rfl
    · exact hmapped rfl

theorem binds_of_reads (h : ReadsItsHost profile entry) :
    BindsOneAddress sha256 str_ profile entry := by
  intro load params v document hprofile hload hport hjudge hv
  subst hprofile
  have hnames : ∀ name ∈ referenceNames entry, Suppliable params.profile name := fun name hname =>
    suppliable_of_mayInterpolate
      (mayInterpolate_of_accepted hload hjudge hv (referenceNames_of_port hport hname))
  obtain ⟨host, hhost, hthrough⟩ :=
    letsThrough_of_accepted (accepted_rules hload hjudge hv).1 hport
  obtain ⟨a, ha, hzero, hmapped⟩ := h hnames host hhost hthrough
  have hwrites := writes_of_published hhost ha
  refine ⟨a, ha, specified_of_letsThrough hthrough hwrites hzero hmapped, fun hspool => ?_⟩
  rw [hthrough.2 hspool] at hwrites
  exact loopback_of_writes hwrites

theorem portOf_profileDocument (profile : Profile) (entry : Doc) :
    PortOf (profileDocument profile entry) entry := by
  cases profile with
  | tenant => exact portOf_oneService _ _ entry
  | spool => exact portOf_oneService _ _ entry

theorem reads_of_binds (h : BindsOneAddress sha256 str_ profile entry) :
    ReadsItsHost profile entry := by
  intro hnames host hhost hthrough
  obtain ⟨v, hjudge, hv⟩ := oneService_accepted sha256 str_
    (portRefusals_eq_nil.mpr ⟨host, hhost, hthrough⟩) hnames
  obtain ⟨a, ha, hspecified, -⟩ := h _ (oneServiceParams profile entry) v _ rfl rfl
    (portOf_profileDocument profile entry) hjudge hv
  refine ⟨a, ha, ?_, ?_⟩
  · rintro rfl
    exact hspecified (Or.inl rfl)
  · rintro rfl
    exact hspecified (Or.inr rfl)

/-- Exactly the entries whose host the rule reads as Compose does are never published to every
interface. -/
theorem bindsOneAddress_iff (sha256 : Bytes → Str) (str_ : Scalar → Str) (profile : Profile)
    (entry : Doc) : BindsOneAddress sha256 str_ profile entry ↔ ReadsItsHost profile entry :=
  ⟨reads_of_binds, binds_of_reads⟩

/-- Another spelling of the unspecified address is accepted. -/
theorem shortened_wildcard :
    ¬BindsOneAddress (fun _ => []) (fun _ => []) .tenant
      (.scalar (.text "[0::0]:8080:80".toList)) := by
  have hnames : referenceNames (.scalar (.text "[0::0]:8080:80".toList)) = [] := by
    simp only [toList_literal]
    decide
  have hhost : publishedAddress (.scalar (.text "[0::0]:8080:80".toList)) = some "0::0".toList := by
    simp only [toList_literal]
    decide
  have hthrough : LetsThrough .tenant "0::0".toList := by
    refine ⟨?_, fun h => by cases h⟩
    delta wildcardAddresses
    simp only [toList_literal]
    decide
  have haddress : composeAddress (.scalar (.text "[0::0]:8080:80".toList)) = some (.v6 0) := by
    simp only [toList_literal]
    decide
  intro h
  have hnone : ∀ name ∈ referenceNames (.scalar (.text "[0::0]:8080:80".toList)),
      Suppliable .tenant name := by
    rw [hnames]
    exact fun name hname => absurd hname List.not_mem_nil
  obtain ⟨a, ha, hzero, -⟩ := reads_of_binds h hnone _ hhost hthrough
  exact hzero (Option.some.inj (ha.symm.trans haddress))

end Accepted

end SharedInfra.TenantCompose
