import LibMumble.Lib.SortedSet
import LibMumble.X509.CertificateFiles
import LibMumble.X509.PEMStore

/-! # The roots of Android

Android keeps its certificates in a directory, and what the user removed and added in two others, in files
named after the certificate. The trusted roots are the certificates of the files whose names are listed
but not removed, and of those that are added (`Trusted`). -/

namespace LibMumble.X509

open Lib LibMumble.ByteArray

/-! ### `ReadSystemRoots` -/

/-- Strings are compared byte by byte. -/
instance strictTotalOrder_bytes : IsStrictTotalOrder (List UInt8) (· < ·) where
  trichotomous _ _ h1 h2 := List.le_antisymm (List.not_lt.mp h2) (List.not_lt.mp h1)
  irrefl := List.lt_irrefl
  trans _ _ _ := List.lt_trans

/-- A `std::set<std::string>`. -/
abbrev NameSet := @SortedSet (List UInt8) (· < ·)

def cacertsPath : List UInt8 := ascii "/system/etc/security/cacerts"

def cacertsRemovedPath : List UInt8 := ascii "/data/misc/keychain/cacerts-removed"

def cacertsAddedPath : List UInt8 := ascii "/data/misc/keychain/cacerts-added"

section Functions

variable (fs : FileSystem)

/-- `read_caroot_dir`. -/
def readCarootDir (path : List UInt8) : NameSet :=
  match fs.readdir path with
  | none => .empty
  | some names => names.foldl
    (fun roots name => if name.head? = some 46 then roots else roots.insert name) .empty

variable {Cert : Type} (D : PEM Cert) (heap junk : ℕ → UInt8)

/-- A loop of `ReadSystemRoots` over names. -/
def addFiles (dir : List UInt8) (store : List Cert) : List (List UInt8) → Except Fault (List Cert)
  | [] => .ok store
  | fn :: fns => do
    let pemBytes ← readCarootPem fs heap junk dir fn
    addFiles dir (addPEM D store pemBytes).2 fns

/-- `X509VerifierPrivate::ReadSystemRoots`, which gives the store. -/
def readSystemRoots : Except Fault (List Cert) := do
  let cacerts := readCarootDir fs cacertsPath
  let cacertsRemoved := readCarootDir fs cacertsRemovedPath
  let cacertsAdded := readCarootDir fs cacertsAddedPath
  let cacertsFiltered := cacerts.difference cacertsRemoved
  let store ← addFiles fs D heap junk cacertsPath [] cacertsFiltered.toList
  addFiles fs D heap junk cacertsAddedPath store cacertsAdded.toList

end Functions

/-! ### The trusted roots -/

namespace FileSystem

variable (fs : FileSystem)

/-- A name that a directory lists and that does not start with a dot. -/
def Listed (dir fn : List UInt8) : Prop :=
  fn ∈ (fs.readdir dir).getD [] ∧ fn.head? ≠ some 46

/-- The bytes of a file of a directory; there are none if it cannot be opened. -/
def fileBytes (dir fn : List UInt8) : List UInt8 := (fs.file (dir ++ ascii "/" ++ fn)).getD []

/-- The files that are read: those listed but not removed, and those added. -/
def Reads (dir fn : List UInt8) : Prop :=
  dir = cacertsPath ∧ fs.Listed cacertsPath fn ∧ ¬ fs.Listed cacertsRemovedPath fn ∨
    dir = cacertsAddedPath ∧ fs.Listed cacertsAddedPath fn

/-- The length of each file that is read is an `int`. -/
def Fits : Prop := ∀ dir fn, fs.Reads dir fn → (fs.fileBytes dir fn).length < 2 ^ 31

/-- The certificates of a file, before its first block that cannot be parsed. -/
def certificates {Cert : Type} (D : PEM Cert) (dir fn : List UInt8) : List Cert :=
  goodPrefix (D.blocks (fs.fileBytes dir fn))

/-- **A trusted root.** -/
def Trusted {Cert : Type} (D : PEM Cert) (x : Cert) : Prop :=
  (∃ fn, fs.Listed cacertsPath fn ∧ ¬ fs.Listed cacertsRemovedPath fn ∧
      x ∈ fs.certificates D cacertsPath fn) ∨
    ∃ fn, fs.Listed cacertsAddedPath fn ∧ x ∈ fs.certificates D cacertsAddedPath fn

/-- The directories have the same names, listed in any order and any number of times. -/
def SameNames (fs' : FileSystem) : Prop := ∀ dir fn, fs'.Listed dir fn ↔ fs.Listed dir fn

end FileSystem

open FileSystem

variable {Cert : Type} {D : PEM Cert} {heap junk : ℕ → UInt8} {fs fs' : FileSystem} {x : Cert}
  {dir fn : List UInt8}

theorem trusted_iff : fs.Trusted D x ↔ ∃ dir fn, fs.Reads dir fn ∧ x ∈ fs.certificates D dir fn := by
  constructor
  · rintro (⟨fn, hin, hout, hx⟩ | ⟨fn, hin, hx⟩)
    · exact ⟨_, fn, .inl ⟨rfl, hin, hout⟩, hx⟩
    · exact ⟨_, fn, .inr ⟨rfl, hin⟩, hx⟩
  · rintro ⟨dir, fn, ⟨rfl, hin, hout⟩ | ⟨rfl, hin⟩, hx⟩
    · exact .inl ⟨fn, hin, hout, hx⟩
    · exact .inr ⟨fn, hin, hx⟩

theorem FileSystem.SameNames.reads (h : fs.SameNames fs') : fs'.Reads dir fn ↔ fs.Reads dir fn := by
  unfold Reads
  rw [h, h, h]

/-! ### Directories -/

/-- The order of `readdir` does not show. -/
theorem mem_readCarootDir : fn ∈ (readCarootDir fs dir).toList ↔ fs.Listed dir fn := by
  unfold readCarootDir Listed
  rcases fs.readdir dir with _ | names
  · simp [SortedSet.empty]
  · have hfold : ∀ roots : NameSet, names.foldl
        (fun roots name => if name.head? = some 46 then roots else roots.insert name) roots =
        (names.filter (·.head? ≠ some 46)).foldl SortedSet.insert roots := by
      intro roots
      rw [List.foldl_filter]
      congr 1
      funext roots name
      by_cases hdot : name.head? = some 46 <;> simp [hdot]
    dsimp only
    rw [hfold, SortedSet.mem_foldl_insert]
    simp [SortedSet.empty]

theorem mem_filtered :
    fn ∈ ((readCarootDir fs cacertsPath).difference (readCarootDir fs cacertsRemovedPath)).toList ↔
      fs.Listed cacertsPath fn ∧ ¬ fs.Listed cacertsRemovedPath fn := by
  rw [SortedSet.mem_difference, mem_readCarootDir, mem_readCarootDir]

/-! ### Files -/

/-- A file adds its certificates, whatever the others do. -/
theorem readCarootPem_adds (h : (fs.fileBytes dir fn).length < 2 ^ 31) (store : List Cert) :
    ∃ pemBytes, readCarootPem fs heap junk dir fn = .ok pemBytes ∧
      (addPEM D store pemBytes).2 = store ++ fs.certificates D dir fn := by
  obtain ⟨pemBytes, hread, hholds⟩ := @readFile_holds heap junk (fs.file (dir ++ ascii "/" ++ fn)) h
  refine ⟨pemBytes, hread, ?_⟩
  rw [addPEM_eq, hholds.content]
  rfl

theorem addFiles_ok {fns : List (List UInt8)} (h : ∀ fn ∈ fns, (fs.fileBytes dir fn).length < 2 ^ 31)
    (store : List Cert) : addFiles fs D heap junk dir store fns =
      .ok (store ++ fns.flatMap (fs.certificates D dir)) := by
  induction fns generalizing store with
  | nil => rw [List.flatMap_nil, List.append_nil, addFiles]
  | cons fn fns ih =>
    obtain ⟨hfn, hfns⟩ := List.forall_mem_cons.mp h
    obtain ⟨pemBytes, hread, hadd⟩ := @readCarootPem_adds Cert D heap junk fs dir fn hfn store
    simp only [addFiles, hread, bind, Except.bind]
    rw [hadd, ih hfns, List.flatMap_cons, List.append_assoc]

/-- **The roots**, if all files fit. -/
theorem readSystemRoots_ok (h : fs.Fits) : ∃ store, readSystemRoots fs D heap junk = .ok store ∧
    ∀ x, x ∈ store ↔ fs.Trusted D x := by
  set filtered := (readCarootDir fs cacertsPath).difference (readCarootDir fs cacertsRemovedPath)
    with hfiltered
  have hfirst : ∀ fn ∈ filtered.toList, (fs.fileBytes cacertsPath fn).length < 2 ^ 31 :=
    fun fn hfn => h _ _ (.inl ⟨rfl, mem_filtered.mp hfn⟩)
  have hsecond : ∀ fn ∈ (readCarootDir fs cacertsAddedPath).toList,
      (fs.fileBytes cacertsAddedPath fn).length < 2 ^ 31 :=
    fun fn hfn => h _ _ (.inr ⟨rfl, mem_readCarootDir.mp hfn⟩)
  refine ⟨filtered.toList.flatMap (fs.certificates D cacertsPath) ++
    (readCarootDir fs cacertsAddedPath).toList.flatMap (fs.certificates D cacertsAddedPath),
    ?_, fun x => ?_⟩
  · simp only [readSystemRoots, ← hfiltered, bind, Except.bind]
    rw [addFiles_ok hfirst, List.nil_append]
    exact addFiles_ok hsecond _
  · simp only [List.mem_append, List.mem_flatMap, hfiltered, mem_filtered, mem_readCarootDir,
      and_assoc]
    rfl

/-- **The roots are the system ones that are not removed, and the added ones**, whatever the order of the
names. A file that is the same in another file system has its certificates there, whatever the other
files are. -/
theorem readSystemRoots_trusts (h : fs.Fits) : ∃ store, readSystemRoots fs D heap junk = .ok store ∧
    (∀ x, x ∈ store ↔ fs.Trusted D x) ∧
    ∀ heap' junk' fs', fs.SameNames fs' → fs'.Fits → ∃ store',
      readSystemRoots fs' D heap' junk' = .ok store' ∧
      ((∀ dir fn, fs.Reads dir fn → fs'.fileBytes dir fn = fs.fileBytes dir fn) →
        ∀ x, x ∈ store' ↔ x ∈ store) ∧
      ∀ dir fn, fs.Reads dir fn → fs'.fileBytes dir fn = fs.fileBytes dir fn →
        ∀ x ∈ fs.certificates D dir fn, x ∈ store' := by
  obtain ⟨store, hrun, hmem⟩ := @readSystemRoots_ok Cert D heap junk fs h
  refine ⟨store, hrun, hmem, fun heap' junk' fs' hnames h' => ?_⟩
  obtain ⟨store', hrun', hmem'⟩ := @readSystemRoots_ok Cert D heap' junk' fs' h'
  refine ⟨store', hrun', fun hsame x => ?_, fun dir fn hreads hsame x hx => ?_⟩
  · rw [hmem, hmem', trusted_iff, trusted_iff]
    refine exists_congr fun dir => exists_congr fun fn => ?_
    rw [hnames.reads]
    refine and_congr_right fun hreads => ?_
    rw [certificates, certificates, hsame dir fn hreads]
  · rw [hmem', trusted_iff]
    refine ⟨dir, fn, hnames.reads.mpr hreads, ?_⟩
    rw [certificates, hsame]
    exact hx

/-! ### Files that are too long -/

theorem addFiles_overflow {fns : List (List UInt8)} (hfn : fn ∈ fns)
    (hlong : 2 ^ 31 ≤ (fs.fileBytes dir fn).length) (store : List Cert) :
    addFiles fs D heap junk dir store fns = .error .overflow := by
  induction fns generalizing store with
  | nil => cases hfn
  | cons fn' fns ih =>
    by_cases hfits : (fs.fileBytes dir fn').length < 2 ^ 31
    · obtain ⟨pemBytes, hread, -⟩ := @readCarootPem_adds Cert D heap junk fs dir fn' hfits store
      have hlater : fn ∈ fns := by
        rcases List.mem_cons.mp hfn with rfl | hlater
        · omega
        · exact hlater
      simp only [addFiles, hread, bind, Except.bind]
      exact ih hlater _
    · have hread : readCarootPem fs heap junk dir fn' = .error .overflow :=
        readFile_overflow (not_lt.mp hfits)
      simp only [addFiles, hread, bind, Except.bind]

/-- A file that is too long ends it all. -/
theorem readSystemRoots_overflow (h : ¬ fs.Fits) :
    readSystemRoots fs D heap junk = .error .overflow := by
  obtain ⟨dir, fn, hreads, hlong⟩ :
      ∃ dir fn, fs.Reads dir fn ∧ 2 ^ 31 ≤ (fs.fileBytes dir fn).length := by
    simpa [Fits] using h
  set filtered := (readCarootDir fs cacertsPath).difference (readCarootDir fs cacertsRemovedPath)
    with hfiltered
  simp only [readSystemRoots, ← hfiltered, bind, Except.bind]
  by_cases hfirst : ∀ fn ∈ filtered.toList, (fs.fileBytes cacertsPath fn).length < 2 ^ 31
  · -- then it is one of those added
    rw [addFiles_ok hfirst]
    rcases hreads with ⟨rfl, hin⟩ | ⟨rfl, hin⟩
    · exact absurd (hfirst fn (mem_filtered.mpr hin)) (not_lt.mpr hlong)
    · exact addFiles_overflow (mem_readCarootDir.mpr hin) hlong _
  · obtain ⟨fn', hfn', hlong'⟩ :
        ∃ fn' ∈ filtered.toList, 2 ^ 31 ≤ (fs.fileBytes cacertsPath fn').length := by
      simpa using hfirst
    rw [addFiles_overflow hfn' hlong']

/-! ### Examples -/

/-- Two files of the system, of which the user removed one. -/
def twoFiles (bytes : List UInt8) : FileSystem where
  readdir dir :=
    if dir = cacertsPath then some [ascii "b.0", ascii "..", ascii "a.0"]
    else if dir = cacertsRemovedPath then some [ascii "a.0"]
    else none
  file path :=
    if path = cacertsPath ++ ascii "/" ++ ascii "b.0" then some bytes
    else some (blockText (ascii "MIIA\n"))

theorem listed_twoFiles {bytes : List UInt8} :
    ((twoFiles bytes).Listed cacertsPath fn ↔ fn = ascii "b.0" ∨ fn = ascii "a.0") ∧
    ((twoFiles bytes).Listed cacertsRemovedPath fn ↔ fn = ascii "a.0") ∧
    ¬ (twoFiles bytes).Listed cacertsAddedPath fn := by
  have hremoved : cacertsRemovedPath ≠ cacertsPath := by decide
  have hadded : cacertsAddedPath ≠ cacertsPath ∧ cacertsAddedPath ≠ cacertsRemovedPath := by decide
  have hdots : (ascii "b.0").head? ≠ some 46 ∧ (ascii "a.0").head? ≠ some 46 ∧
    (ascii "..").head? = some 46 := by decide
  unfold Listed twoFiles
  refine ⟨?_, ?_, ?_⟩
  · simp only [if_true, Option.getD_some, List.mem_cons, List.not_mem_nil, or_false]
    constructor
    · rintro ⟨rfl | rfl | rfl, hdot⟩
      · exact .inl rfl
      · exact absurd hdots.2.2 hdot
      · exact .inr rfl
    · rintro (rfl | rfl)
      · exact ⟨.inl rfl, hdots.1⟩
      · exact ⟨.inr (.inr rfl), hdots.2.1⟩
  · simp only [if_neg hremoved, if_true, Option.getD_some, List.mem_singleton]
    refine and_iff_left_of_imp ?_
    rintro rfl
    exact hdots.2.1
  · simp [if_neg hadded.1, if_neg hadded.2]

theorem reads_twoFiles {bytes : List UInt8} :
    (twoFiles bytes).Reads dir fn ↔ dir = cacertsPath ∧ fn = ascii "b.0" := by
  have hne : ascii "b.0" ≠ ascii "a.0" := by decide
  unfold Reads
  rw [listed_twoFiles.1, listed_twoFiles.2.1]
  constructor
  · rintro (⟨rfl, rfl | rfl, hout⟩ | ⟨-, hin⟩)
    · exact ⟨rfl, rfl⟩
    · exact absurd rfl hout
    · exact absurd hin listed_twoFiles.2.2
  · rintro ⟨rfl, rfl⟩
    exact .inl ⟨rfl, .inl rfl, hne⟩

theorem fileBytes_twoFiles (bytes : List UInt8) :
    (twoFiles bytes).fileBytes cacertsPath (ascii "b.0") = bytes := by
  simp only [fileBytes, twoFiles, if_true, Option.getD_some]

/-- Only the certificate of the file that was not removed is a root. -/
theorem readSystemRoots_trusts_twoFiles : ∃ store,
    readSystemRoots (twoFiles (blockText (ascii "MIIB\n"))) textPEM (fun _ => 0) (fun _ => 0) =
      .ok store ∧ ∀ x, x ∈ store ↔ x = ascii "MIIB\n" := by
  have hfits : (twoFiles (blockText (ascii "MIIB\n"))).Fits := by
    intro dir fn hreads
    obtain ⟨rfl, rfl⟩ := reads_twoFiles.mp hreads
    rw [fileBytes_twoFiles]
    decide
  obtain ⟨store, hrun, hmem, -⟩ := @readSystemRoots_trusts _ textPEM (fun _ => 0) (fun _ => 0) _ hfits
  refine ⟨store, hrun, fun x => ?_⟩
  have hblocks : (twoFiles (blockText (ascii "MIIB\n"))).certificates textPEM cacertsPath
      (ascii "b.0") = [ascii "MIIB\n"] := by
    rw [certificates, fileBytes_twoFiles, blocks_blockText]
    rfl
  rw [hmem, trusted_iff]
  constructor
  · rintro ⟨dir, fn, hreads, hx⟩
    obtain ⟨rfl, rfl⟩ := reads_twoFiles.mp hreads
    rw [hblocks] at hx
    exact List.mem_singleton.mp hx
  · rintro rfl
    exact ⟨_, _, reads_twoFiles.mpr ⟨rfl, rfl⟩, by rw [hblocks]; exact List.mem_singleton_self _⟩

/-- A file of `2 ^ 31` newlines overflows. -/
theorem readSystemRoots_too_long :
    readSystemRoots (twoFiles (List.replicate (2 ^ 31) 10)) textPEM (fun _ => 0) (fun _ => 0) =
      .error .overflow := by
  refine readSystemRoots_overflow fun hfits => ?_
  have hlen := hfits _ _ (reads_twoFiles.mpr ⟨rfl, rfl⟩)
  rw [fileBytes_twoFiles, List.length_replicate] at hlen
  exact lt_irrefl _ hlen

end LibMumble.X509
