import Myscm.Client.ChosenConfig
import Myscm.Client.SysImgUpdater

/-!
Owns the agreement of `--update HOST` with the peers: when a host that the validators take can
be looked up in `options.peers_list`.

Owns: the options of an update out of a parsed configuration; the place of a name in the text
of `PeersList`; the two validators over one configuration file.

Does not own: the search for a peer without `HOST`.
-/

namespace Myscm.Client

open Myscm.Library Myscm.Common SysImgUpdater

/-! ## The options of an update -/

/-- The options that an update reads, of a configuration with valid ones. -/
def updateOptions (config : Config) : Option UpdateOptions :=
  match config .peersList, config .sysImgUpdateProtocol with
  | .peers details, .raw (.str protocol) =>
      if supported : protocol ∈ supportedProtocols then some ⟨details, protocol, supported⟩
      else none
  | _, _ => none

/-- `PeersList` of a configuration file, as the file has it. -/
def peersListText (content : List UInt8) : Except ParserFailure (Option Str) := do
  let file ← readConfigFile content
  (file.getOption cliSectionName OptionName.peersList.value).mapError .configparser

/-- A name stands in a `PeersList` by itself: between commas or the ends of the list, but for
white space. -/
def NamedIn (name peersStr : Str) : Prop :=
  let inner := Str.rstripChars [']'] (Str.lstripChars ['['] peersStr)
  inner ≠ [] ∧ Str.Trimmed name ∧ ',' ∉ name ∧
    ∃ front before after back, inner = front ++ (before ++ name ++ after) ++ back ∧
      Str.Blank before ∧ Str.Blank after ∧
      (front = [] ∨ front.getLast? = some ',') ∧ (back = [] ∨ back.head? = some ',')

/-! ## The names of a list -/

theorem comma_not_mem_of_blank {s : Str} (blank : Str.Blank s) : ',' ∉ s := fun member =>
  absurd (blank ',' member) (by decide)

theorem mem_peersOf_iff {name peersStr : Str} : name ∈ peersOf peersStr ↔ NamedIn name peersStr := by
  unfold peersOf NamedIn
  dsimp only
  by_cases empty : Str.rstripChars [']'] (Str.lstripChars ['['] peersStr) = []
  · simp [empty]
  · rw [if_neg empty, List.mem_map]
    constructor
    · rintro ⟨piece, isPiece, rfl⟩
      obtain ⟨noComma, front, back, whole, isFront, isBack⟩ := mem_splitOn_iff.mp isPiece
      obtain ⟨before, after, beforeBlank, afterBlank, padded⟩ := Str.exists_blank_strip piece
      refine ⟨empty, Str.strip_trimmed piece, fun member => noComma (Str.mem_of_mem_strip member),
        front, before, after, back, ?_, beforeBlank, afterBlank, isFront, isBack⟩
      rw [← padded]
      exact whole
    · rintro ⟨_, trimmed, noComma, front, before, after, back, whole, beforeBlank, afterBlank,
        isFront, isBack⟩
      refine ⟨before ++ name ++ after, mem_splitOn_iff.mpr ⟨?_, front, back, whole, isFront, isBack⟩,
        Str.strip_padded beforeBlank trimmed afterBlank⟩
      rw [List.mem_append, List.mem_append]
      rintro ((inBefore | inName) | inAfter)
      · exact comma_not_mem_of_blank beforeBlank inBefore
      · exact noComma inName
      · exact comma_not_mem_of_blank afterBlank inAfter

section Validators

variable {env : ParserEnv} {content : List UInt8}

private theorem mem_keys_of_loop {file : ConfigFile} {hosts : List Str}
    {start details : Dict Str HostConnectionDetails}
    (loop : hosts.foldlM (fun peers host =>
      if host ∈ file.sections.keys then do
        let details ← getHostConnectionDetails env file host
        return peers.set host details
      else
        .error (.parser ("Host '".toList ++ host ++
          "' referred in PeersList variable doesn't have ".toList ++
          "respective configuration section with connection details".toList))) start = .ok details)
    (host : Str) : host ∈ details.keys ↔ host ∈ start.keys ∨ host ∈ hosts := by
  induction hosts generalizing start with
  | nil =>
      obtain rfl := Except.ok.inj loop
      simp
  | cons first rest inductionHypothesis =>
      rw [List.foldlM_cons] at loop
      obtain ⟨next, here, later⟩ := bind_ok loop
      split at here
      · obtain ⟨_, _, set⟩ := bind_ok here
        obtain rfl := Except.ok.inj set
        rw [inductionHypothesis later, Dict.keys_set, List.mem_cons]
        by_cases known : first ∈ start.keys
        · rw [if_pos known]
          constructor
          · rintro (old | inRest)
            · exact .inl old
            · exact .inr (.inr inRest)
          · rintro (old | rfl | inRest)
            · exact .inl old
            · exact .inl known
            · exact .inr inRest
        · rw [if_neg known, List.mem_append, List.mem_singleton, or_assoc]
      · cases here

/-- The peers of a list that is taken are its names. -/
theorem keys_of_assertPeersListValid {peers : RawValue} {value : ConfigValue}
    (taken : assertPeersListValid env content peers = .ok value) :
    ∃ peersStr details, peers = .str peersStr ∧ value = .peers details ∧
      ∀ host, host ∈ details.keys ↔ NamedIn host peersStr := by
  cases peers with
  | int n => cases taken
  | bool b => cases taken
  | str peersStr =>
      rw [assertPeersListValid] at taken
      split at taken
      · cases taken
      · obtain ⟨details, extended, returned⟩ := bind_ok taken
        obtain ⟨file, _, loop⟩ := bind_ok extended
        refine ⟨peersStr, details, rfl, (Except.ok.inj returned).symm, fun host => ?_⟩
        rw [mem_keys_of_loop loop host, mem_peersOf_iff]
        simp

/-! ## The options of a file -/

theorem itemsOf_getOption {file : ConfigFile} {name key value : Str} {items : List (Str × Str)}
    (read : file.itemsOf name = .ok items) (member : (key, value) ∈ items) :
    file.getOption name key = .ok (some value) := by
  unfold ConfigFile.itemsOf at read
  cases isSection : file.optionsOf name with
  | none =>
      rw [isSection] at read
      cases read
  | some options =>
      rw [isSection] at read
      obtain ⟨item, inOptions, computed⟩ := exists_mem_of_mem_mapM read member
      obtain ⟨interpolated, isValue, pair⟩ := bind_ok computed
      obtain ⟨rfl, rfl⟩ := Prod.mk.inj (Except.ok.inj pair)
      have found : options.get? item.1 = some item.2 := Dict.get?_eq_some_iff.mpr inOptions
      rw [ConfigFile.getOption, isSection, Option.getD_some, found]
      dsimp only
      rw [isValue]
      rfl

theorem value_of_ofKey {key : Str} {name : OptionName} (known : OptionName.ofKey key = some name) :
    name.value = key := by
  have found := List.find?_some known
  simpa using found

/-- A text that is converted to a text is kept. -/
theorem str_of_convertStringValueToType {val s : Str}
    (converted : convertStringValueToType val = .ok (.str s)) : s = val := by
  unfold convertStringValueToType at converted
  split at converted
  · split at converted <;> cases converted
  · split at converted
    · cases converted
    · split at converted
      · cases converted
      · cases converted
        rfl

/-- A text among the options of a file is what the file has. -/
theorem getOption_of_fileOptions {options : List (OptionName × RawValue)} {name : OptionName}
    {value : Str} (taken : fileOptions content = .ok options)
    (member : (name, RawValue.str value) ∈ options) :
    ∃ file, readConfigFile content = .ok file ∧
      file.getOption cliSectionName name.value = .ok (some value) := by
  obtain ⟨file, read, taken⟩ := bind_ok taken
  obtain ⟨items, listed, taken⟩ := bind_ok taken
  obtain ⟨recognized, known, taken⟩ := bind_ok taken
  obtain ⟨_, _, taken⟩ := bind_ok taken
  obtain ⟨option, inRecognized, converted⟩ := exists_mem_of_mem_mapM taken member
  obtain ⟨raw, isRaw, pair⟩ := bind_ok converted
  obtain ⟨rfl, rfl⟩ := Prod.mk.inj (Except.ok.inj pair)
  obtain ⟨item, inItems, recognizes⟩ := exists_mem_of_mem_mapM known inRecognized
  obtain rfl := str_of_convertStringValueToType isRaw
  refine ⟨file, read, ?_⟩
  split at recognizes
  · rename_i found isKnown
    obtain rfl := Except.ok.inj recognizes
    rw [value_of_ofKey isKnown]
    exact itemsOf_getOption (mapError_ok listed) inItems
  · cases recognizes

/-- What an option is after the options of a list are set: the value of one of them, or as
before. -/
theorem foldl_setConfig_cases (values : List (OptionName × ConfigValue)) (config : Config)
    (name : OptionName) :
    (name ∉ values.map Prod.fst ∧
      values.foldl (fun config option => setConfig config option.1 option.2) config name =
        config name) ∨
    (name, values.foldl (fun config option => setConfig config option.1 option.2) config name) ∈
      values := by
  induction values generalizing config with
  | nil => simp
  | cons first rest inductionHypothesis =>
      rw [List.foldl_cons, List.map_cons]
      rcases inductionHypothesis (setConfig config first.1 first.2) with ⟨absent, kept⟩ | later
      · by_cases same : name = first.1
        · refine .inr ?_
          rw [kept, setConfig, if_pos same, same]
          exact List.mem_cons_self
        · refine .inl ⟨?_, ?_⟩
          · rw [List.mem_cons, not_or]
            exact ⟨same, absent⟩
          · rw [kept, setConfig, if_neg same]
      · exact .inr (List.mem_cons_of_mem _ later)

/-- Where an option of an accepted file comes from: it is a valid option of the file, or none
of its options and the default. -/
theorem config_cases {default : List UInt8} {config : Config}
    (accepted : updateConfigFromFile env default content = .ok config) (name : OptionName) :
    ∃ options, fileOptions content = .ok options ∧
      ((name ∉ options.map Prod.fst ∧ config name = defaultConfig name) ∨
        ∃ raw, (name, raw) ∈ options ∧ assertValid env default name raw = .ok (config name)) := by
  obtain ⟨options, taken, updated⟩ := bind_ok accepted
  refine ⟨options, taken, ?_⟩
  obtain ⟨values, valid, folded⟩ := bind_ok updated
  obtain rfl := Except.ok.inj folded
  rcases foldl_setConfig_cases values defaultConfig name with ⟨absent, kept⟩ | member
  · refine .inl ⟨fun present => absent ?_, kept⟩
    obtain ⟨option, isOption, isName⟩ := List.mem_map.mp present
    obtain ⟨value, inValues, computed⟩ := exists_mem_of_mapM_ok valid isOption
    obtain ⟨_, _, pair⟩ := bind_ok computed
    exact List.mem_map.mpr ⟨value, inValues, by rw [← Except.ok.inj pair, isName]⟩
  · obtain ⟨option, isOption, computed⟩ := exists_mem_of_mem_mapM valid member
    obtain ⟨value, isValue, pair⟩ := bind_ok computed
    obtain ⟨isName, sameValue⟩ := Prod.mk.inj (Except.ok.inj pair)
    rw [← sameValue]
    subst isName
    exact .inr ⟨option.2, isOption, isValue⟩

/-- A file with valid options is accepted. -/
theorem exists_updateConfigFromFile {default : List UInt8} {options : List (OptionName × RawValue)}
    (taken : fileOptions content = .ok options)
    (valid : ∀ option ∈ options, ∃ value, assertValid env default option.1 option.2 = .ok value) :
    ∃ config, updateConfigFromFile env default content = .ok config := by
  obtain ⟨values, computed⟩ : ∃ values, (options.mapM fun option => do
      let value ← assertValid env default option.1 option.2
      return (option.1, value)) = .ok values := by
    refine exists_mapM_ok fun option member => ?_
    obtain ⟨value, isValue⟩ := valid option member
    exact ⟨(option.1, value), by rw [isValue]; rfl⟩
  refine ⟨values.foldl (fun config option => setConfig config option.1 option.2) defaultConfig, ?_⟩
  rw [updateConfigFromFile, taken]
  show updateConfigFromOptions env default options = _
  rw [updateConfigFromOptions, computed]
  rfl

/-- The peers of an accepted file are the names of its `PeersList`. -/
theorem peersList_of_file {default : List UInt8} {config : Config}
    (accepted : updateConfigFromFile env default content = .ok config) :
    ∃ peersStr details, peersListText content = .ok (some peersStr) ∧
      config .peersList = .peers details ∧ ∀ host, host ∈ details.keys ↔ NamedIn host peersStr := by
  obtain ⟨options, taken, origin⟩ := config_cases accepted .peersList
  rcases origin with ⟨absent, _⟩ | ⟨raw, member, valid⟩
  · exact absurd (peersList_mem_of_fileOptions taken) absent
  · obtain ⟨peersStr, details, rfl, isPeers, keys⟩ := keys_of_assertPeersListValid valid
    obtain ⟨file, read, listed⟩ := getOption_of_fileOptions taken member
    refine ⟨peersStr, details, ?_, isPeers, keys⟩
    rw [peersListText, read]
    show (file.getOption cliSectionName OptionName.peersList.value).mapError _ = _
    rw [listed]
    rfl

/-- The protocol of an accepted file is supported. -/
theorem protocol_of_file {default : List UInt8} {config : Config}
    (accepted : updateConfigFromFile env default content = .ok config) :
    ∃ protocol ∈ supportedProtocols, config .sysImgUpdateProtocol = .raw (.str protocol) := by
  obtain ⟨options, taken, origin⟩ := config_cases accepted .sysImgUpdateProtocol
  rcases origin with ⟨_, isDefault⟩ | ⟨raw, _, valid⟩
  · exact ⟨"SFTP".toList, by decide, isDefault⟩
  · obtain ⟨value, chosen, isValue⟩ := exists_of_map_ok valid
    unfold assertChoicesValid assertThat at chosen
    split at chosen
    · rename_i supported
      obtain ⟨protocol, isProtocol, same⟩ := List.any_eq_true.mp supported
      refine ⟨protocol, isProtocol, ?_⟩
      rw [← isValue, ← Except.ok.inj chosen, of_decide_eq_true same]
    · cases chosen

/-- An accepted file has the options of an update, with the names of its `PeersList` as peers. -/
theorem updateOptions_of_file {default : List UInt8} {config : Config}
    (accepted : updateConfigFromFile env default content = .ok config) :
    ∃ peersStr options, peersListText content = .ok (some peersStr) ∧
      updateOptions config = some options ∧
      ∀ host, host ∈ options.peersList.keys ↔ NamedIn host peersStr := by
  obtain ⟨peersStr, details, text, isPeers, keys⟩ := peersList_of_file accepted
  obtain ⟨protocol, supported, isProtocol⟩ := protocol_of_file accepted
  refine ⟨peersStr, ⟨details, protocol, supported⟩, text, ?_, keys⟩
  rw [updateOptions, isPeers, isProtocol]
  exact dif_pos supported

/-- A host that is taken stands somewhere in the text of `PeersList`. -/
theorem infix_of_assertHostValid {host : Str} {value : RawValue}
    (taken : assertHostValid env content (.str host) = .ok value) :
    ∃ peersStr, peersListText content = .ok (some peersStr) ∧ host <:+: peersStr := by
  obtain ⟨_, respective, _⟩ := bind_ok taken
  obtain ⟨file, read, checked⟩ := bind_ok respective
  dsimp only at checked
  split at checked
  · split at checked
    · cases checked
    · obtain ⟨found, listed, contained⟩ := bind_ok checked
      split at contained
      · cases contained
      · rename_i peersStr
        refine ⟨peersStr, ?_, ?_⟩
        · rw [peersListText, read]
          exact listed
        · by_contra missing
          rw [if_neg missing] at contained
          cases contained
  · cases checked

end Validators

/-! ## The look-up -/

/-- The look-up of `_download_from_selected_host` fails for a host that is no key alone. -/
theorem keyError_iff (download : HostConnectionDetails → Except DownloadFailure Str)
    (options : UpdateOptions) (host : Str) :
    downloadFromSelectedHost download options host = .error .keyError ↔
      host ∉ options.peersList.keys := by
  rw [Dict.mem_keys_iff, downloadFromSelectedHost]
  cases options.peersList.get? host with
  | none => simp
  | some details =>
      dsimp only [getDownloader]
      split
      · cases outcome : download details with
        | ok path => simp [outcome, bind, Except.bind, pure, Except.pure]
        | error failure =>
            cases failure <;> simp [outcome, bind, Except.bind, pure, Except.pure]
      · simp [bind, Except.bind]

/-- A host that the validators take stands somewhere in the `PeersList`, and it can be looked
up where it stands there by itself alone. -/
theorem hostFound_iff {env : ParserEnv} {content : List UInt8} {host : Str} {config : Config}
    {value : RawValue} (accepted : updateConfigFromFile env content content = .ok config)
    (hostAccepted : assertHostValid env content (.str host) = .ok value) :
    ∃ peersStr options, peersListText content = .ok (some peersStr) ∧ host <:+: peersStr ∧
      updateOptions config = some options ∧
      (host ∈ options.peersList.keys ↔ NamedIn host peersStr) ∧
      ∀ download, downloadFromSelectedHost download options host ≠ .error .keyError ↔
        NamedIn host peersStr := by
  obtain ⟨peersStr, options, text, isOptions, keys⟩ := updateOptions_of_file accepted
  obtain ⟨otherStr, otherText, contained⟩ := infix_of_assertHostValid hostAccepted
  obtain rfl := Option.some.inj (Except.ok.inj (otherText.symm.trans text))
  refine ⟨otherStr, options, text, contained, isOptions, keys host, fun download => ?_⟩
  rw [ne_eq, keyError_iff, not_not, keys]

/-- A configuration whose one peer `hh` has a name that holds that of the section `h`. -/
def overlapContent : List UInt8 :=
  Utf8.encode (unlines (["[myscm-cli]".toList, "SSLCertPublicKeyPath=/k".toList,
    "SSLCertPath=/s".toList, "SysImgUpdateProtocol=SFTP".toList, "PeersList=[hh]".toList,
    "SysImgExtractDir=/d".toList, "SysImgDownloadDir=/d".toList,
    "RecentSysImgVerPath=/v".toList, "[h]".toList, "[hh]".toList] ++ (peerSection ['1']).tail))

def overlapOptions : List (OptionName × RawValue) :=
  [(.sslCertPublicKeyPath, .str "/k".toList), (.sslCertPath, .str "/s".toList),
    (.sysImgUpdateProtocol, .str "SFTP".toList), (.peersList, .str "[hh]".toList),
    (.sysImgExtractDir, .str "/d".toList), (.sysImgDownloadDir, .str "/d".toList),
    (.recentSysImgVerPath, .str "/v".toList)]

theorem updateConfigFromFile_overlapContent :
    ∃ config, updateConfigFromFile resolvingEnv overlapContent overlapContent = .ok config := by
  have taken : fileOptions overlapContent = .ok overlapOptions := by
    rw [fileOptions, overlapContent, readConfigFile_encode]
    decide
  obtain ⟨file, read, isSection, details, connection⟩ :
      ∃ file, readConfigFile overlapContent = .ok file ∧ "hh".toList ∈ file.sections.keys ∧
        ∃ details, getHostConnectionDetails resolvingEnv file "hh".toList = .ok details := by
    refine ⟨⟨⟨[(cliSectionName, ⟨[("SSLCertPublicKeyPath".toList, "/k".toList),
      ("SSLCertPath".toList, "/s".toList), ("SysImgUpdateProtocol".toList, "SFTP".toList),
      ("PeersList".toList, "[hh]".toList), ("SysImgExtractDir".toList, "/d".toList),
      ("SysImgDownloadDir".toList, "/d".toList), ("RecentSysImgVerPath".toList, "/v".toList)],
      by decide⟩), (['h'], .empty), (['h', 'h'], ⟨[("Protocol".toList, "SFTP".toList),
      ("Port".toList, ['1']), ("Username".toList, ['u']), ("Password".toList, ['p']),
      ("RemoteDir".toList, "/r".toList)], nodup_options⟩)], by decide⟩, .empty⟩, ?_, by decide, ?_⟩
    · rw [overlapContent, readConfigFile_encode]
      decide
    · exact ⟨⟨"hh".toList, "SFTP".toList, 1, ['u'], some ['p'], none, none, "/r".toList⟩,
        by decide⟩
  have peers := assertValid_single_peer (show peersOf "[hh]".toList = ["hh".toList] by decide) read
    isSection connection
  have valid : ∀ option ∈ overlapOptions,
      ∃ value, assertValid resolvingEnv overlapContent option.1 option.2 = .ok value := by
    simp only [overlapOptions, List.forall_mem_cons]
    exact ⟨⟨_, rfl⟩, ⟨_, rfl⟩, ⟨_, rfl⟩, ⟨_, peers⟩, ⟨_, rfl⟩, ⟨_, rfl⟩, ⟨_, rfl⟩, by simp⟩
  exact exists_updateConfigFromFile taken valid

/-- The name of a section that a name of the list holds is taken. -/
theorem assertHostValid_overlapContent {host : Str} (isSection : host = ['h'] ∨ host = ['h', 'h']) :
    assertHostValid resolvingEnv overlapContent (.str host) = .ok (.str host) := by
  show (assertRespectiveConfigSectionExist overlapContent (.str host) >>= _) = _
  rw [assertRespectiveConfigSectionExist, overlapContent, readConfigFile_encode]
  rcases isSection with rfl | rfl <;> decide

theorem hostFound_overlapContent :
    ∃ config options, updateConfigFromFile resolvingEnv overlapContent overlapContent = .ok config ∧
      updateOptions config = some options ∧ ∃ peersStr,
        ("hh".toList ∈ options.peersList.keys ↔ NamedIn "hh".toList peersStr) := by
  obtain ⟨config, accepted⟩ := updateConfigFromFile_overlapContent
  obtain ⟨peersStr, options, _, _, isOptions, found, _⟩ :=
    hostFound_iff accepted (assertHostValid_overlapContent (.inr rfl))
  exact ⟨config, options, accepted, isOptions, peersStr, found⟩

theorem not_hostFound_overlapContent :
    ¬ ∀ env content host config value, updateConfigFromFile env content content = .ok config →
      assertHostValid env content (.str host) = .ok value →
      ∃ options, updateOptions config = some options ∧ host ∈ options.peersList.keys := by
  intro found
  obtain ⟨config, accepted⟩ := updateConfigFromFile_overlapContent
  obtain ⟨options, isOptions, isKey⟩ :=
    found _ _ _ _ _ accepted (assertHostValid_overlapContent (.inl rfl))
  obtain ⟨peersStr, otherOptions, text, sameOptions, keys⟩ := updateOptions_of_file accepted
  obtain rfl := Option.some.inj (sameOptions.symm.trans isOptions)
  have isText : peersListText overlapContent = .ok (some "[hh]".toList) := by
    rw [peersListText, overlapContent, readConfigFile_encode]
    decide
  obtain rfl := Option.some.inj (Except.ok.inj (text.symm.trans isText))
  have named := mem_peersOf_iff.mpr ((keys ['h']).mp isKey)
  revert named
  decide

end Myscm.Client
