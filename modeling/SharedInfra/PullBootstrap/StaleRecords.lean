import SharedInfra.PullBootstrap.RecordSafety

/-!
# Records that later commits make stale

A commit after the build that changes a fetched file moves its pin, and one that changes the
configuration changes its text; both are found (`stale_of_changedSince`, `stale_of_config`).  A
commit that changes an input and not the configuration that it gives is not, and neither is a
member that a record does not have.
-/

namespace SharedInfra.PullBootstrap

open Python Effects Sequences

section Later

variable {repo later : Repo} {sha256 : Bytes → HexDigest} {rendering : Rendering} {d : Dict}
  {file : Str × Str} {old new text : Str}

theorem pin_of_same {commit commit' path path' : Str} {value value' : HexDigest}
    (h : (entryOf commit value path).same (entryOf commit' value' path') = true) :
    commit = commit' := by
  obtain ⟨fields, hfields, -, hpin, -⟩ := same_entryOf_iff.mp h
  obtain rfl := Val.object.inj hfields
  have hget : Dict.get [("pin".toList, Val.string commit), ("sha256".toList, .string value.1),
      ("url".toList, .string (rawUrl commit path))] "pin".toList = .string commit := by
    simp [Dict.get, Dict.get?]
  exact Val.string.inj (hget.symm.trans hpin)

theorem entry_of_build (h : buildRecord repo sha256 rendering = .ok d) (hfile : file ∈ fetched) :
    ∃ commit value, lastCommit repo file.2 = .ok commit ∧
      Dict.get d file.1 = entryOf commit value file.2 := by
  have hnodup : (d.map Prod.fst).Nodup := by
    rw [names_of_buildRecord h]
    exact memberNames_nodup
  obtain ⟨tip, text, entries, -, -, hentries, rfl⟩ := buildRecord_ok_iff.mp h
  obtain ⟨entry, hentry, hbuild⟩ := exists_of_mem_left hentries hfile
  obtain ⟨commit, value, hlast, -, rfl⟩ := buildEntry_ok_iff.mp hbuild
  refine ⟨commit, value, hlast, ?_⟩
  have hmem := List.mem_cons_of_mem ("schema".toList, Val.number 1)
    (List.mem_append_left [("config".toList, Val.string text)] hentry)
  rw [Dict.get, Dict.get?, lookup_of_mem hnodup hmem, Option.getD_some]

theorem config_of_build (h : buildRecord repo sha256 rendering = .ok d) :
    ∃ text, repositoryConfig repo rendering = .ok text ∧
      Dict.get d "config".toList = .string text := by
  have hnodup : (d.map Prod.fst).Nodup := by
    rw [names_of_buildRecord h]
    exact memberNames_nodup
  obtain ⟨tip, text, entries, -, htext, -, rfl⟩ := buildRecord_ok_iff.mp h
  refine ⟨text, htext, ?_⟩
  have hmem := List.mem_cons_of_mem ("schema".toList, Val.number 1)
    (List.mem_append_right entries (List.mem_singleton_self ("config".toList, Val.string text)))
  rw [Dict.get, Dict.get?, lookup_of_mem hnodup hmem, Option.getD_some]

theorem stale_of_changedSince (h : buildRecord repo sha256 rendering = .ok d)
    (hhistory : later.history = repo.history) (hold : repo.head = .ok old)
    (hnew : later.head = .ok new) (hfile : file ∈ fetched)
    (hchange : repo.history.ChangedSince file.2 old new) :
    verifyRecord later sha256 rendering (.object d) ≠ .ok [] := by
  intro hverify
  obtain ⟨fields, tip, text, heq, -, -, hcurrent, -⟩ :=
    (verifyRecord_eq_nil_iff checkRule).mp hverify
  obtain rfl := Val.object.inj heq
  obtain ⟨commit, value, hlast, hget⟩ := entry_of_build h hfile
  obtain ⟨commit', value', hlast', -, hsame⟩ := hcurrent file hfile
  rw [hget] at hsame
  obtain rfl := pin_of_same hsame
  obtain ⟨top, htop, hchanged⟩ := lastCommit_ok_iff.mp hlast
  obtain ⟨top', htop', hchanged'⟩ := lastCommit_ok_iff.mp hlast'
  obtain rfl := Except.ok.inj (hold.symm.trans htop)
  obtain rfl := Except.ok.inj (hnew.symm.trans htop')
  rw [hhistory] at hchanged'
  exact History.lastChange_ne_of_changedSince hchange (hchanged'.trans hchanged.symm)

theorem stale_of_config (h : buildRecord repo sha256 rendering = .ok d)
    (hconfig : repositoryConfig later rendering ≠ repositoryConfig repo rendering) :
    verifyRecord later sha256 rendering (.object d) ≠ .ok [] := by
  intro hverify
  obtain ⟨fields, tip, text, heq, -, -, -, htext, hget⟩ :=
    (verifyRecord_eq_nil_iff checkRule).mp hverify
  obtain rfl := Val.object.inj heq
  obtain ⟨text', htext', hget'⟩ := config_of_build h
  obtain rfl := Val.string.inj (hget.symm.trans hget')
  exact hconfig (htext.trans htext'.symm)

theorem verifies_beside {name : Str} {value : Val} (h : buildRecord repo sha256 rendering = .ok d)
    (hname : name ∉ memberNames) :
    verifyRecord repo sha256 rendering (.object ((name, value) :: d)) = .ok [] := by
  refine verifies_iff_holds.mpr ⟨_, d, rfl, h, fun member hmember => ?_⟩
  have hnodup : (d.map Prod.fst).Nodup := by
    rw [names_of_buildRecord h]
    exact memberNames_nodup
  have hne : member.1 ≠ name := by
    rintro rfl
    rw [← names_of_buildRecord h] at hname
    exact hname (List.mem_map_of_mem hmember)
  refine ⟨member.2, ?_, Val.same_refl _⟩
  rw [Dict.get?, List.lookup_cons, beq_eq_false_iff_ne.mpr hne]
  exact lookup_of_mem hnodup hmember

/-- Since the build, a line of commits changed a fetched file, or the configuration is another. -/
inductive Changed (repo later : Repo) (rendering : Rendering) : Prop
  | fetchedFile {file : Str × Str} {old new : Str} (hhistory : later.history = repo.history)
      (hold : repo.head = .ok old) (hnew : later.head = .ok new) (hfile : file ∈ fetched)
      (hchange : repo.history.ChangedSince file.2 old new)
  | config (hconfig : repositoryConfig later rendering ≠ repositoryConfig repo rendering)

/-- A record without a further member verifies exactly when it is what a build gives; a removed or
a changed member is reported, and so is what a later commit changes. -/
theorem verifies_iff_built (sha256 : Bytes → HexDigest) (rendering : Rendering) :
    (∀ repo record, NoOtherMember record → (verifyRecord repo sha256 rendering record = .ok [] ↔
        ∃ d, buildRecord repo sha256 rendering = .ok d ∧ record.same (.object d) = true)) ∧
    (∀ repo d, buildRecord repo sha256 rendering = .ok d →
      verifyRecord repo sha256 rendering (.object d) = .ok []) ∧
    (∀ repo record, verifyRecord repo sha256 rendering record = .ok [] →
      ∃ fields d, record = .object fields ∧ buildRecord repo sha256 rendering = .ok d ∧
        Holds fields d) ∧
    ∀ repo later d, buildRecord repo sha256 rendering = .ok d → Changed repo later rendering →
      verifyRecord later sha256 rendering (.object d) ≠ .ok [] := by
  refine ⟨fun repo record hrecord => verifies_iff_same hrecord, fun repo d => verifies_of_build,
    fun repo record => verifies_iff_holds.mp, fun repo later d hbuild hchanged => ?_⟩
  cases hchanged with
  | fetchedFile hhistory hold hnew hfile hchange =>
    exact stale_of_changedSince hbuild hhistory hold hnew hfile hchange
  | config hconfig => exact stale_of_config hbuild hconfig

end Later

section Comment

/-- The two commits of the history. -/
def firstId : Str := List.replicate 40 'a'

def secondId : Str := List.replicate 40 'b'

def defaultsText : Str :=
  ("pull_trigger_ansible_playbook: /opt/ansible/bin/ansible-playbook\n" ++
    "pull_trigger_keep_runs: 30\npull_trigger_log_dir: /var/log/pull\n" ++
    "pull_trigger_state_dir: /var/lib/pull\npull_trigger_timeout_seconds: 3600\n").toList

/-- The texts of the other inputs. -/
def inputText (path : Str) : Str :=
  if path = varsPath then
    "pull_trigger_remote_url: https://github.com/branchLeft/shared-infra.git\n".toList
  else if path = commonPath then
    ("pull_trigger_playbook: ansible/playbooks/edge1.yml\n" ++
      "pull_trigger_playbooks:\n  - ansible/playbooks/edge1.yml\n").toList
  else if path = trustPath then "pull_trigger_signers:\n  - one\n".toList
  else if path = playbookPath then
    ("- hosts: edge1\n  vars:\n    enrolled_host: edge1\n  vars_files:\n" ++
      "    - \"\x7b\x7b playbook_dir \x7d\x7d/includes/pull_trigger_common.yml\"\n" ++
      "    - \"\x7b\x7b playbook_dir \x7d\x7d/../trust/edge1.yml\"\n").toList
  else
    ("- name: Write the configuration\n  ansible.builtin.copy:\n    content: " ++
      "\"\x7b\x7b pull_trigger_config | ansible.builtin.to_nice_json \x7d\x7d\\n\"\n  vars:\n" ++
      "    pull_trigger_config:\n" ++
      "      ansible_playbook: \"\x7b\x7b pull_trigger_ansible_playbook \x7d\x7d\"\n" ++
      "      keep_runs: \"\x7b\x7b pull_trigger_keep_runs | int \x7d\x7d\"\n" ++
      "      log_dir: \"\x7b\x7b pull_trigger_log_dir \x7d\x7d\"\n" ++
      "      playbook: \"\x7b\x7b pull_trigger_playbook \x7d\x7d\"\n" ++
      "      playbooks: \"\x7b\x7b pull_trigger_playbooks \x7d\x7d\"\n" ++
      "      remote_url: \"\x7b\x7b pull_trigger_remote_url \x7d\x7d\"\n" ++
      "      signers: \"\x7b\x7b pull_trigger_signers \x7d\x7d\"\n" ++
      "      state_dir: \"\x7b\x7b pull_trigger_state_dir \x7d\x7d\"\n" ++
      "      timeout_seconds: \"\x7b\x7b pull_trigger_timeout_seconds | int \x7d\x7d\"\n").toList

/-- What the inputs give, with the comment of the second commit and without it. -/
def configText : Str :=
  ("\x7b\n    \"ansible_playbook\": \"/opt/ansible/bin/ansible-playbook\",\n" ++
    "    \"keep_runs\": 30,\n    \"log_dir\": \"/var/log/pull\",\n" ++
    "    \"playbook\": \"ansible/playbooks/edge1.yml\",\n    \"playbooks\": [\n" ++
    "        \"ansible/playbooks/edge1.yml\"\n    ],\n" ++
    "    \"remote_url\": \"https://github.com/branchLeft/shared-infra.git\",\n" ++
    "    \"signers\": [\n        \"one\"\n    ],\n    \"state_dir\": \"/var/lib/pull\",\n" ++
    "    \"timeout_seconds\": 3600\n\x7d\n").toList

def textAt (commit path : Str) : Str :=
  if path = defaultsPath then
    if commit = firstId then defaultsText else defaultsText ++ ['#', '\n']
  else inputText path

/-- The fetched files are empty at both. -/
def commentHistory : History where
  parents commit :=
    if commit = firstId then some [] else if commit = secondId then some [firstId] else none
  file commit path :=
    if path ∈ fetched.map Prod.snd then some [] else some (utf8Encode (textAt commit path))
  rank commit := if commit = firstId then 0 else 1
  fullId := by
    intro c hc
    split_ifs at hc with h1 h2
    · subst h1
      decide
    · subst h2
      decide
    · cases hc
  older := by
    intro c ps hc p hp
    split_ifs at hc with h1 h2
    · obtain rfl := Option.some.inj hc
      cases hp
    · obtain rfl := Option.some.inj hc
      obtain rfl := List.mem_singleton.mp hp
      rw [if_pos rfl, if_neg h1]
      decide

/-- A checkout of a commit, which is the tip of `main`. -/
def checkout (commit : Str) : Repo where
  history := commentHistory
  isShallow := .ok "false".toList
  fetch := .ok ()
  fetchHead := .ok commit
  head := .ok commit
  status := .ok []
  missing := fun _ _ => []
  readText path := .ok (textAt commit path)

def commentRendering : Rendering where
  checkPlaybook := fun _ => .ok ()
  renderConfig := fun _ _ _ _ _ => .ok configText

def emptyDigest : HexDigest :=
  ⟨['e', '3', 'b', '0', 'c', '4', '4', '2', '9', '8', 'f', 'c', '1', 'c', '1', '4', '9', 'a', 'f',
    'b', 'f', '4', 'c', '8', '9', '9', '6', 'f', 'b', '9', '2', '4', '2', '7', 'a', 'e', '4', '1',
    'e', '4', '6', '4', '9', 'b', '9', '3', '4', 'c', 'a', '4', '9', '5', '9', '9', '1', 'b', '7',
    '8', '5', '2', 'b', '8', '5', '5'], by decide⟩

variable {commit path : Str}

theorem firstId_ne_secondId : secondId ≠ firstId := by decide

theorem parents_firstId : commentHistory.parents firstId = some [] := by
  simp only [commentHistory, if_true]

theorem parents_secondId : commentHistory.parents secondId = some [firstId] := by
  simp only [commentHistory, if_neg firstId_ne_secondId, if_true]

theorem lastCommit_checkout (hcommit : commit = firstId ∨ commit = secondId)
    (hpath : path ∈ fetched.map Prod.snd) : lastCommit (checkout commit) path = .ok firstId := by
  have hfile : ∀ c, commentHistory.file c path = some [] := fun c => if_pos hpath
  have hfirst : commentHistory.lastChange path firstId = some firstId := by
    rw [History.lastChange_some parents_firstId]
    simp [hfile]
  refine lastCommit_ok_iff.mpr ⟨commit, rfl, ?_⟩
  obtain rfl | rfl := hcommit
  · exact hfirst
  · change commentHistory.lastChange path secondId = some firstId
    rw [History.lastChange_some parents_secondId]
    simp [hfile, hfirst]

theorem repositoryConfig_checkout (commit : Str) :
    repositoryConfig (checkout commit) commentRendering = .ok configText := rfl

theorem checkedOutTip_checkout (hcommit : commit = firstId ∨ commit = secondId) (rule : Str) :
    checkedOutTip (checkout commit) rule = .ok commit := by
  refine checkedOutTip_ok_iff.mpr ⟨?_, ?_, rfl⟩
  · simp only [refuseShallow, git, checkout, Except.mapError, Except.bind, if_true]
  · have hfull : isHex 40 commit = true := by
      obtain rfl | rfl := hcommit <;> decide
    simp only [mainTip, git, checkout, Except.mapError, Except.bind, hfull, if_true]

theorem build_checkout : ∃ d, ∀ commit, commit = firstId ∨ commit = secondId →
    buildRecord (checkout commit) (fun _ => emptyDigest) commentRendering = .ok d := by
  refine ⟨("schema".toList, .number 1) ::
    (fetched.map (fun file => (file.1, entryOf firstId emptyDigest file.2)) ++
      [("config".toList, .string configText)]), fun commit hcommit => ?_⟩
  refine buildRecord_ok_iff.mpr ⟨commit, configText, _, checkedOutTip_checkout hcommit _,
    repositoryConfig_checkout commit, ?_, rfl⟩
  rw [List.forall₂_map_right_iff, List.forall₂_same]
  intro file hfile
  have hpath : file.2 ∈ fetched.map Prod.snd := List.mem_map_of_mem hfile
  exact buildEntry_ok_iff.mpr ⟨firstId, emptyDigest, lastCommit_checkout hcommit hpath,
    blobSha256_ok_iff.mpr ⟨[], if_pos hpath, rfl⟩, rfl⟩

/-- A later commit that adds a comment to an input is not reported. -/
theorem comment_not_reported : ∃ d,
    buildRecord (checkout firstId) (fun _ => emptyDigest) commentRendering = .ok d ∧
    commentHistory.parents secondId = some [firstId] ∧
    commentHistory.file secondId defaultsPath ≠ commentHistory.file firstId defaultsPath ∧
    verifyRecord (checkout secondId) (fun _ => emptyDigest) commentRendering (.object d) =
      .ok [] := by
  obtain ⟨d, hbuild⟩ := build_checkout
  refine ⟨d, hbuild firstId (Or.inl rfl), parents_secondId, ?_,
    verifies_of_build (hbuild secondId (Or.inr rfl))⟩
  have hpath : defaultsPath ∉ fetched.map Prod.snd := by
    delta defaultsPath fetched
    simp only [toList_literal]
    decide
  simp only [commentHistory, if_neg hpath, textAt, if_true, if_neg firstId_ne_secondId]
  intro heq
  have htext := utf8Encode_injective (Option.some.inj heq)
  exact absurd (List.append_right_eq_self.mp htext) (List.cons_ne_nil _ _)

end Comment

end SharedInfra.PullBootstrap
