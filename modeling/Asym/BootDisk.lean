import Asym.Ramfs

/-!
# The ram disk of the boot loader

The boot loader reads the whole boot volume into memory: a node for every directory and file, with
the names of the firmware, which have 16-bit characters, cut to bytes. The kernel copies this tree
when it mounts its ram disk.

The file protocol of the firmware is a parameter, and so is what it answers to every call. It is
assumed to show a volume: a directory returns its entries one after another, with entries for itself
and its parent among them, an entry is opened by its name, and a file is read as a whole. If the names
are short and plain, every path then opens in the kernel what it leads to on the volume.
-/

namespace Asym.BootDisk

open PathParser PathStack PathResolution VolumeLifetimes NodeTrees Ramfs

/-! ## The source -/

/-- `EFI_FILE_INFO`: whether it has `EFI_FILE_DIRECTORY`, and `FileName`. -/
structure FileInfo where
  directory : Bool
  fileName : List UInt16

/-- `EFI_FILE_PROTOCOL`, for handles of the firmware: the handle that `Open` puts out, what `Read`
returns of a directory in turn, each an entry or an error, until it asks for no room, the `FileSize`
of a file, and what `Read` of a number of bytes makes of a buffer. -/
structure FileProtocol (Handle : Type) where
  openFile : Handle → List UInt16 → Option Handle
  infos : Handle → List (Option FileInfo)
  size : Handle → Nat
  read : Handle → Nat → (Nat → UInt8) → Nat → UInt8

/-- The name of a directory itself, or of its parent. -/
def isDots (fileName : List UInt16) : Bool := fileName = [46] ∨ fileName = [46, 46]

/-- `char16_to_char`: the bytes before the end. -/
def char16ToChar (string : List UInt16) : List UInt8 := string.map UInt16.toUInt8

/-- The string that `char16_to_char` leaves in a buffer of `MAX_NAME` bytes, if it fits. -/
def charName (string : List UInt16) : Option (List UInt8) :=
  if string.length < maxName then some ((char16ToChar string).takeWhile (· ≠ 0)) else none

section Loader

variable {Handle : Type} (protocol : FileProtocol Handle) (allocator : Allocator)

/-- `ram_disk_load_file`, if a handle is put out and the name fits. -/
def ramDiskLoadFile (memory : Memory) (volume : Handle) (path : List UInt16) : Option (Memory × Nat) :=
  match protocol.openFile volume path, charName path with
  | some fileHandle, some name =>
      let file := memory.next allocator
      let named := nodeInit (memory.take allocator) file name ramfsFile
      let size := protocol.size fileHandle
      let data := named.next allocator
      some ({ named.take allocator with
        ramFiles := Function.update named.ramFiles file ⟨data, size⟩
        blocks := Function.update named.blocks data (protocol.read fileHandle size (named.blocks data)) }, file)
  | _, _ => none

/-- An entry in `ram_disk_load_directory`, with the load of directories. -/
def loadEntry (loadDirectory : Memory → Handle → List UInt8 → Option (Memory × Nat)) (volume : Handle) (node : Nat)
    (memory : Memory) (fileInfo : FileInfo) : Option Memory :=
  if fileInfo.directory then
    if isDots fileInfo.fileName then some memory
    else
      match protocol.openFile volume fileInfo.fileName, charName fileInfo.fileName with
      | some childVolume, some childName =>
          (loadDirectory memory childVolume childName).map fun child => nodePush child.1 node child.2
      | _, _ => none
  else (ramDiskLoadFile protocol allocator memory volume fileInfo.fileName).map fun file => nodePush file.1 node file.2

/-- The loop of `ram_disk_load_directory` over what is read. An error ends it. -/
def loadEntries (loadDirectory : Memory → Handle → List UInt8 → Option (Memory × Nat)) (volume : Handle)
    (node : Nat) : List (Option FileInfo) → Memory → Option Memory
  | [], memory => some memory
  | none :: _, memory => some memory
  | some fileInfo :: later, memory =>
      (loadEntry protocol allocator loadDirectory volume node memory fileInfo).bind
        (loadEntries loadDirectory volume node later)

/-- `ram_disk_load_directory`, for volumes up to a depth. -/
def ramDiskLoadDirectory : Nat → Memory → Handle → List UInt8 → Option (Memory × Nat)
  | 0, _, _, _ => none
  | depth + 1, memory, volume, name =>
      let node := memory.next allocator
      let named := nodeInit (memory.take allocator) node name ramfsDir
      (loadEntries protocol allocator (ramDiskLoadDirectory depth) volume node (protocol.infos volume) named).map
        fun loaded => (loaded, node)

end Loader

/-- The name that `ram_disk_load` gives the root. -/
def rootName : List UInt8 := [114, 111, 111, 116]

/-- `ram_disk_load`. -/
def ramDiskLoad {Handle : Type} (protocol : FileProtocol Handle) (allocator : Allocator) (depth : Nat)
    (memory : Memory) (rootHandle : Handle) : Option (Memory × Nat) :=
  ramDiskLoadDirectory protocol allocator depth memory rootHandle rootName

/-! ## What a volume means -/

/-- An entry of a volume: a directory with its entries, or a file with its bytes. -/
inductive EfiEntry where
  | dir (fileName : List UInt16) (entries : List EfiEntry)
  | file (fileName : List UInt16) (bytes : List UInt8)

/-- Its name. -/
def EfiEntry.fileName : EfiEntry → List UInt16
  | .dir fileName _ => fileName
  | .file fileName _ => fileName

/-- The directory itself, or its parent. -/
def EfiEntry.isDots : EfiEntry → Bool
  | .dir fileName _ => BootDisk.isDots fileName
  | .file _ _ => false

/-- What is read of it. -/
def EfiEntry.info : EfiEntry → FileInfo
  | .dir fileName _ => ⟨true, fileName⟩
  | .file fileName _ => ⟨false, fileName⟩

/-- What is assumed of the firmware: at a handle it shows an entry. No read fails, and each entry of
a directory but itself and its parent is opened by its name. -/
inductive Shows {Handle : Type} (protocol : FileProtocol Handle) : Handle → EfiEntry → Prop where
  | file {handle : Handle} (fileName : List UInt16) {bytes : List UInt8} (size : protocol.size handle = bytes.length)
      (reads : ∀ buffer, protocol.read handle bytes.length buffer = fun offset => bytes.getD offset (buffer offset)) :
      Shows protocol handle (.file fileName bytes)
  | dir {handle : Handle} (fileName : List UInt16) {entries : List EfiEntry} (child : EfiEntry → Handle)
      (lists : protocol.infos handle = entries.map fun entry => some entry.info)
      (opens : ∀ entry ∈ entries, entry.isDots = false →
        protocol.openFile handle entry.fileName = some (child entry))
      (below : ∀ entry ∈ entries, entry.isDots = false → Shows protocol (child entry) entry) :
      Shows protocol handle (.dir fileName entries)

mutual

/-- The tree of an entry. -/
def disk : EfiEntry → Entry
  | .dir fileName entries => .dir (char16ToChar fileName) (disks entries)
  | .file fileName bytes => .file (char16ToChar fileName) bytes

/-- The trees of the entries of a directory, without itself and its parent. -/
def disks : List EfiEntry → List Entry
  | [] => []
  | entry :: later => if entry.isDots then disks later else disk entry :: disks later

end

/-- A name of 1 to 31 ASCII characters without a slash. -/
structure Plain (fileName : List UInt16) : Prop where
  some_ : fileName ≠ []
  short : fileName.length < maxName
  ascii : ∀ chr ∈ fileName, 0 < chr ∧ chr < 128 ∧ chr ≠ 47

/-- Entries of a directory have different names, and all but itself and its parent have plain ones. -/
inductive Sound : EfiEntry → Prop where
  | file (fileName : List UInt16) (bytes : List UInt8) : Sound (.file fileName bytes)
  | dir (fileName : List UInt16) {entries : List EfiEntry} (different : (entries.map EfiEntry.fileName).Nodup)
      (plain : ∀ entry ∈ entries, entry.isDots = false → Plain entry.fileName)
      (below : ∀ entry ∈ entries, Sound entry) : Sound (.dir fileName entries)

section Names

variable {fileName : List UInt16}

/-- The byte of a character of a plain name. -/
theorem Plain.byte (plain : Plain fileName) {chr : UInt16} (inside : chr ∈ fileName) :
    chr.toUInt8.toNat = chr.toNat ∧ endOfName chr.toUInt8 = false := by
  obtain ⟨positive, small, noSlash⟩ := plain.ascii chr inside
  rw [UInt16.lt_iff_toNat_lt] at positive small
  have same : chr.toUInt8.toNat = chr.toNat := by
    rw [UInt16.toNat_toUInt8]
    exact Nat.mod_eq_of_lt (small.trans (by decide))
  have slash : chr.toNat ≠ 47 := fun isSlash => noSlash (UInt16.toNat_inj.mp isSlash)
  refine ⟨same, ?_⟩
  rw [endOfName, Bool.or_eq_false_iff, beq_eq_false_iff_ne, beq_eq_false_iff_ne, ne_eq, ne_eq, ← UInt8.toNat_inj,
    ← UInt8.toNat_inj, same]
  exact ⟨slash, Nat.ne_of_gt positive⟩

/-- A plain name is copied whole. -/
theorem Plain.charName (plain : Plain fileName) : charName fileName = some (char16ToChar fileName) := by
  rw [BootDisk.charName, if_pos plain.short, Option.some.injEq, List.takeWhile_eq_self_iff]
  intro byte inside
  obtain ⟨chr, among, rfl⟩ := List.mem_map.mp inside
  have noEnd := (plain.byte among).2
  rw [endOfName, Bool.or_eq_false_iff, beq_eq_false_iff_ne, beq_eq_false_iff_ne] at noEnd
  exact decide_eq_true noEnd.2

/-- Different plain names stay different. -/
theorem Plain.inj {other : List UInt16} (plain : Plain fileName) (otherPlain : Plain other)
    (same : char16ToChar fileName = char16ToChar other) : fileName = other := by
  have restored : ∀ {name : List UInt16}, Plain name →
      (char16ToChar name).map (fun byte => UInt16.ofNat byte.toNat) = name := by
    intro name isPlain
    rw [char16ToChar, List.map_map]
    refine (List.map_congr_left fun chr inside => ?_).trans (List.map_id name)
    rw [Function.comp_apply, (isPlain.byte inside).1, UInt16.ofNat_toNat, id]
  rw [← restored plain, same, restored otherPlain]

/-- A plain name is a word. -/
theorem Plain.word (plain : Plain fileName) : Word (char16ToChar fileName) := by
  refine ⟨fun none => plain.some_ (List.map_eq_nil_iff.mp none), ?_⟩
  intro byte inside
  obtain ⟨chr, among, rfl⟩ := List.mem_map.mp inside
  exact (plain.byte among).2

end Names

/-! ## Loads -/

section Loads

variable {Handle : Type} {protocol : FileProtocol Handle} {before now : Memory} {entries : List EfiEntry}

/-- The name of the tree of an entry. -/
theorem disk_name (entry : EfiEntry) : (disk entry).name = char16ToChar entry.fileName := by
  cases entry <;> rw [disk] <;> rfl

/-- The trees of the entries, without itself and its parent. -/
theorem disks_eq (entries : List EfiEntry) :
    disks entries = (entries.filter fun entry => !entry.isDots).map disk := by
  induction entries with
  | nil => rw [disks]; rfl
  | cons entry later step =>
      rw [disks, step]
      cases dots : entry.isDots
      · rw [if_neg Bool.false_ne_true, List.filter_cons_of_pos (by rw [dots]; rfl), List.map_cons]
      · rw [if_pos rfl, List.filter_cons_of_neg (by rw [dots]; exact Bool.false_ne_true)]

/-- A tree in a directory is that of an entry. -/
theorem mem_disks {tree : Entry} (inside : tree ∈ disks entries) :
    ∃ entry ∈ entries, entry.isDots = false ∧ disk entry = tree := by
  rw [disks_eq] at inside
  obtain ⟨entry, among, same⟩ := List.mem_map.mp inside
  obtain ⟨listed, notDots⟩ := List.mem_filter.mp among
  exact ⟨entry, listed, by simpa using notDots, same⟩

/-- The tree of a sound volume is proper. -/
theorem Sound.proper {entry : EfiEntry} (sound : Sound entry) : Proper (disk entry) := by
  induction sound with
  | file fileName bytes =>
      rw [disk]
      exact .file _ _
  | @dir fileName entries different plain below step =>
      rw [disk]
      have named : ∀ tree ∈ disks entries, ∃ entry ∈ entries, Plain entry.fileName ∧ disk entry = tree := by
        intro tree inside
        obtain ⟨entry, among, notDots, same⟩ := mem_disks inside
        exact ⟨entry, among, plain entry among notDots, same⟩
      refine .dir ?_ ?_ ?_ ?_
      · have names : (disks entries).map Entry.name =
            ((entries.filter fun entry => !entry.isDots).map EfiEntry.fileName).map char16ToChar := by
          rw [disks_eq, List.map_map, List.map_map]
          exact List.map_congr_left fun entry _ => disk_name entry
        rw [names]
        refine List.Nodup.map_on ?_ (different.sublist (List.filter_sublist.map _))
        intro first isFirst second isSecond same
        obtain ⟨firstEntry, firstAmong, rfl⟩ := List.mem_map.mp isFirst
        obtain ⟨secondEntry, secondAmong, rfl⟩ := List.mem_map.mp isSecond
        obtain ⟨firstListed, firstDots⟩ := List.mem_filter.mp firstAmong
        obtain ⟨secondListed, secondDots⟩ := List.mem_filter.mp secondAmong
        exact (plain _ firstListed (by simpa using firstDots)).inj (plain _ secondListed (by simpa using secondDots))
          same
      · intro tree inside
        obtain ⟨entry, _, isPlain, rfl⟩ := named tree inside
        rw [disk_name]
        exact isPlain.word
      · intro tree inside
        obtain ⟨entry, _, isPlain, rfl⟩ := named tree inside
        rw [disk_name, char16ToChar, List.length_map]
        exact isPlain.short
      · intro tree inside
        obtain ⟨entry, among, _, rfl⟩ := named tree inside
        exact step entry among

/-- A file is loaded. -/
theorem ramDiskLoadFile_loaded (allocator : Allocator) (memory : Memory) {volume child : Handle}
    {fileName : List UInt16} {bytes : List UInt8} (opens : protocol.openFile volume fileName = some child)
    (shows : Shows protocol child (.file fileName bytes)) (plain : Plain fileName) :
    ∃ after out, ramDiskLoadFile protocol allocator memory volume fileName = some (after, out) ∧
      Loaded memory after out (.file (char16ToChar fileName) bytes) := by
  obtain ⟨size, reads⟩ : protocol.size child = bytes.length ∧ ∀ buffer,
      protocol.read child bytes.length buffer = fun offset => bytes.getD offset (buffer offset) := by
    cases shows with
    | file _ size reads => exact ⟨size, reads⟩
  rw [ramDiskLoadFile, opens, plain.charName]
  simp only [size, reads]
  refine ⟨_, _, rfl, ?_⟩
  have fileFree := next_fresh memory allocator
  have init := nodeInit_agree memory allocator (char16ToChar fileName) ramfsFile
  set file := memory.next allocator
  set named := nodeInit (memory.take allocator) file (char16ToChar fileName) ramfsFile
  have dataFree := next_fresh named allocator
  set data := named.next allocator
  rw [show named.used = file :: memory.used from rfl, List.mem_cons, not_or] at dataFree
  have notFile : ∀ address ∈ memory.used, address ≠ file := fun address member same => fileFree (same ▸ member)
  have notData : ∀ address ∈ memory.used, address ≠ data := fun address member same => dataFree.2 (same ▸ member)
  have atFile : Function.update named.ramFiles file ⟨data, bytes.length⟩ file = ⟨data, bytes.length⟩ :=
    Function.update_self ..
  have node : named.nodes file = ⟨ramfsFile, none, [], char16ToChar fileName⟩ := Function.update_self ..
  refine ⟨fun address member => List.mem_cons_of_mem data (List.mem_cons_of_mem file member),
    ⟨init.type, init.name, init.children, ?_, ?_⟩, ?_⟩
  · exact fun address member => Function.update_of_ne (notFile address member) ..
  · exact fun address member => Function.update_of_ne (notData address member) ..
  · refine .file ⟨fileFree, List.mem_cons_of_mem data List.mem_cons_self⟩ ?_ (congrArg Node.type node)
      (congrArg Node.name node) (congrArg Node.children node) ?_
    · simp only [atFile]
      exact ⟨dataFree.2, List.mem_cons_self⟩
    · simp only [atFile, Function.update_self]
      refine List.ext_getElem (by simp) fun offset inside _ => ?_
      rw [List.length_map, List.length_range] at inside
      rw [List.getElem_map, List.getElem_range, List.getD_eq_getElem?_getD, List.getElem?_eq_getElem inside,
        Option.getD_some]

/-- An entry is loaded and pushed, or passed over. -/
theorem loadEntry_filling (allocator : Allocator)
    {loadDirectory : Memory → Handle → List UInt8 → Option (Memory × Nat)} {volume child : Handle} {node : Nat}
    {name : List UInt8} {done : List Entry} (filling : Filling before node name done now) {entry : EfiEntry}
    (opens : entry.isDots = false → protocol.openFile volume entry.fileName = some child)
    (shows : entry.isDots = false → Shows protocol child entry) (plain : entry.isDots = false → Plain entry.fileName)
    (loads : ∀ fileName below, entry = .dir fileName below → entry.isDots = false → ∃ after out,
      loadDirectory now child (char16ToChar fileName) = some (after, out) ∧ Loaded now after out (disk entry)) :
    ∃ next, loadEntry protocol allocator loadDirectory volume node now entry.info = some next ∧
      Filling before node name (done ++ disks [entry]) next := by
  cases dots : entry.isDots with
  | true =>
      cases entry with
      | file fileName bytes => exact absurd dots Bool.false_ne_true
      | dir fileName below =>
          have dotsName : isDots fileName = true := dots
          rw [EfiEntry.info, loadEntry, if_pos rfl, if_pos dotsName, disks_eq,
            List.filter_cons_of_neg (by rw [dots]; exact Bool.false_ne_true)]
          rw [List.filter_nil, List.map_nil, List.append_nil]
          exact ⟨now, rfl, filling⟩
  | false =>
      have isPlain := plain dots
      have opened := opens dots
      have added : disks [entry] = [disk entry] := by
        rw [disks_eq, List.filter_cons_of_pos (by rw [dots]; rfl), List.filter_nil, List.map_cons, List.map_nil]
      rw [added]
      cases entry with
      | file fileName bytes =>
          simp only [EfiEntry.fileName] at opened isPlain
          obtain ⟨after, out, result, loaded⟩ := ramDiskLoadFile_loaded allocator now opened (shows dots) isPlain
          rw [EfiEntry.info, loadEntry, if_neg Bool.false_ne_true, result, disk]
          exact ⟨_, rfl, filling.push loaded⟩
      | dir fileName below =>
          obtain ⟨after, out, result, loaded⟩ := loads fileName below rfl dots
          have notDots : ¬isDots fileName = true := Bool.eq_false_iff.mp dots
          rw [EfiEntry.info, loadEntry, if_pos rfl, if_neg notDots]
          simp only [EfiEntry.fileName] at opened isPlain
          simp only [opened, isPlain.charName, result]
          exact ⟨_, rfl, filling.push loaded⟩

/-- The loop of `ram_disk_load_directory` loads the entries in turn. -/
theorem loadEntries_filling (allocator : Allocator)
    {loadDirectory : Memory → Handle → List UInt8 → Option (Memory × Nat)} {volume : Handle} (child : EfiEntry → Handle)
    {node : Nat} {name : List UInt8} {done : List Entry} (filling : Filling before node name done now)
    (rest : List EfiEntry) (opens : ∀ entry ∈ rest, entry.isDots = false →
      protocol.openFile volume entry.fileName = some (child entry))
    (shows : ∀ entry ∈ rest, entry.isDots = false → Shows protocol (child entry) entry)
    (plain : ∀ entry ∈ rest, entry.isDots = false → Plain entry.fileName)
    (loads : ∀ fileName below, .dir fileName below ∈ rest → (EfiEntry.dir fileName below).isDots = false →
      ∀ memory, ∃ after out, loadDirectory memory (child (.dir fileName below)) (char16ToChar fileName) =
        some (after, out) ∧ Loaded memory after out (disk (.dir fileName below))) :
    ∃ after, loadEntries protocol allocator loadDirectory volume node (rest.map fun entry => some entry.info) now =
      some after ∧ Filling before node name (done ++ disks rest) after := by
  induction rest generalizing now done with
  | nil =>
      rw [disks, List.append_nil]
      exact ⟨now, rfl, filling⟩
  | cons entry later step =>
      rw [List.forall_mem_cons] at opens shows plain
      obtain ⟨next, result, filled⟩ := loadEntry_filling allocator filling opens.1 shows.1 plain.1
        fun fileName below same notDots => by
          subst same
          exact loads fileName below List.mem_cons_self notDots now
      obtain ⟨after, resultLater, filledLater⟩ := step filled opens.2 shows.2 plain.2
        fun fileName below member => loads fileName below (List.mem_cons_of_mem entry member)
      refine ⟨after, ?_, ?_⟩
      · rw [List.map_cons, loadEntries, result]
        exact resultLater
      · have split : disks (entry :: later) = disks [entry] ++ disks later := by
          simp only [disks_eq, ← List.map_append, ← List.filter_append, List.singleton_append]
        rwa [split, ← List.append_assoc]

/-- `ram_disk_load_directory` loads a sound directory, by induction on the depth. -/
theorem ramDiskLoadDirectory_loaded (allocator : Allocator) (depth : Nat) (memory : Memory) {volume : Handle}
    {fileName : List UInt16} (shows : Shows protocol volume (.dir fileName entries))
    (sound : Sound (.dir fileName entries)) (enough : depths (disks entries) < depth) (name : List UInt8) :
    ∃ after out, ramDiskLoadDirectory protocol allocator depth memory volume name = some (after, out) ∧
      Loaded memory after out (.dir name (disks entries)) := by
  induction depth generalizing memory volume fileName entries name with
  | zero => exact absurd enough (Nat.not_lt_zero _)
  | succ depth step =>
      obtain ⟨child, lists, opens, showsBelow⟩ : ∃ child : EfiEntry → Handle,
          protocol.infos volume = entries.map (fun entry => some entry.info) ∧
          (∀ entry ∈ entries, entry.isDots = false →
            protocol.openFile volume entry.fileName = some (child entry)) ∧
          ∀ entry ∈ entries, entry.isDots = false → Shows protocol (child entry) entry := by
        cases shows with
        | dir _ child lists opens below => exact ⟨child, lists, opens, below⟩
      cases sound with
      | dir _ different plain below =>
          have free := next_fresh memory allocator
          have frame := nodeInit_agree memory allocator name ramfsDir
          rw [ramDiskLoadDirectory, lists]
          set node := memory.next allocator
          set named := nodeInit (memory.take allocator) node name ramfsDir
          have atNode : named.nodes node = ⟨ramfsDir, none, [], name⟩ := Function.update_self ..
          have start : Filling memory node name [] named := by
            refine ⟨free, List.mem_cons_self, fun _ member => List.mem_cons_of_mem node member, frame, ?_, ?_, ?_⟩
            · rw [atNode]
            · rw [atNode]
            · rw [atNode]
              exact .nil
          obtain ⟨after, result, filled⟩ := loadEntries_filling allocator child start entries opens showsBelow plain
            fun childName childEntries member notDots now => by
              rw [disk]
              refine step now (showsBelow _ member notDots) (below _ member) ?_ _
              have inside : disk (.dir childName childEntries) ∈ disks entries := by
                rw [disks_eq]
                exact List.mem_map_of_mem (List.mem_filter.mpr ⟨member, by rw [notDots]; rfl⟩)
              have shallow := depth_le_depths inside
              rw [disk, Entry.depth] at shallow
              omega
          refine ⟨after, node, ?_, filled.loaded⟩
          simp only [result, Option.map_some]

end Loads

/-! ## From the volume to the kernel -/

/-- What is on the boot volume is what the kernel has, with any firmware that shows the volume. The boot
loader reads the volume and the kernel copies its tree. Whatever happens to the memory of the boot loader
then, every path opens what it leads to on the volume: a file has its bytes, a directory is refused, and
so is what is not there. -/
theorem boot_volume_preserved {Handle : Type} {protocol : FileProtocol Handle} (loader kernel : Allocator)
    (memory : Memory) {rootHandle : Handle} {fileName : List UInt16} {entries : List EfiEntry}
    (shows : Shows protocol rootHandle (.dir fileName entries)) (sound : Sound (.dir fileName entries)) (depth : Nat)
    (enough : depths (disks entries) < depth) :
    ∃ boot loaded, ramDiskLoad protocol loader depth memory rootHandle = some (boot, loaded) ∧
      ∃ after root, ramfsLoadDir kernel depth boot loaded = some (after, root) ∧
        ∀ later, Agree (fun address => address ∉ boot.used ∧ address ∈ after.used) after later →
          ∀ volume names, (∀ name ∈ names, Word name) →
            OpensAs later root volume (rooted names false) ((Entry.dir rootName (disks entries)).find names) := by
  obtain ⟨boot, loaded, read, tree⟩ := ramDiskLoadDirectory_loaded loader depth memory shows sound enough rootName
  have held := tree.held.of_agree (Agree.refl boot) fun address owned => owned.2
  have isDir : (boot.nodes loaded).type = ramfsDir := by
    cases held with
    | dir _ type => exact type
  have deep : (Entry.dir rootName (disks entries)).depth ≤ depth := by
    rw [Entry.depth]
    exact enough
  have proper : Proper (.dir rootName (disks entries)) := by
    have whole := sound.proper
    rw [disk] at whole
    cases whole with
    | dir different words short below => exact .dir different words short below
  obtain ⟨after, root, copied, copy⟩ := ramfsLoadDir_loaded kernel _ boot loaded depth held isDir deep
  refine ⟨boot, loaded, read, after, root, copied, ?_⟩
  intro later same volume names words
  exact (copy.held.of_agree same fun _ owned => owned).opensAs proper volume words

/-- A firmware whose handles are the entries themselves. -/
def entryProtocol : FileProtocol EfiEntry where
  openFile
    | .dir _ entries, path => entries.find? (·.fileName = path)
    | .file _ _, _ => none
  infos
    | .dir _ entries => entries.map fun entry => some entry.info
    | .file _ _ => []
  size
    | .file _ bytes => bytes.length
    | .dir _ _ => 0
  read
    | .file _ bytes, _, buffer => fun offset => bytes.getD offset (buffer offset)
    | .dir _ _, _, buffer => buffer

/-- It shows every sound volume. -/
theorem Sound.shown {entry : EfiEntry} (sound : Sound entry) : Shows entryProtocol entry entry := by
  induction sound with
  | file fileName bytes => exact .file fileName rfl fun _ => rfl
  | dir fileName different plain _ below =>
      refine .dir fileName id rfl (fun entry inside _ => ?_) fun entry inside _ => below entry inside
      exact (find?_unique different (fun _ _ => decide_eq_true_iff) entry).mpr ⟨inside, rfl⟩

/-- A volume with a file `a` of two bytes and a directory `d` with its own entries. -/
def sampleVolume : List EfiEntry :=
  [.file [97] [7, 8], .dir [100] [.dir [46] [], .dir [46, 46] [], .file [97] [9]]]

/-- It is sound. -/
theorem sampleVolume_sound : Sound (.dir [] sampleVolume) := by
  have plain : ∀ fileName ∈ [[97], [100]], Plain fileName := by
    intro fileName inside
    rcases List.mem_pair.mp inside with rfl | rfl
    · exact ⟨by decide, by decide, List.forall_mem_singleton.mpr (by decide)⟩
    · exact ⟨by decide, by decide, List.forall_mem_singleton.mpr (by decide)⟩
  have empty : ∀ fileName, Sound (.dir fileName []) := fun fileName =>
    .dir fileName List.nodup_nil (List.forall_mem_nil _) (List.forall_mem_nil _)
  have inner : Sound (.dir [100] [.dir [46] [], .dir [46, 46] [], .file [97] [9]]) := by
    refine .dir [100] (by decide) ?_ ?_
    · intro entry inside notDots
      simp only [List.mem_cons, List.not_mem_nil, or_false] at inside
      rcases inside with rfl | rfl | rfl
      · exact absurd notDots (by decide)
      · exact absurd notDots (by decide)
      · exact plain [97] (by decide)
    · simp only [List.forall_mem_cons]
      exact ⟨empty _, empty _, .file _ _, List.forall_mem_nil _⟩
  refine .dir [] (by decide) ?_ ?_
  · simp only [sampleVolume, List.forall_mem_cons]
    exact ⟨fun _ => plain [97] (by decide), fun _ => plain [100] (by decide), List.forall_mem_nil _⟩
  · simp only [sampleVolume, List.forall_mem_cons]
    exact ⟨.file _ _, inner, List.forall_mem_nil _⟩

/-- The file in the directory is read in the kernel. -/
theorem boot_volume_preserved_sample : Sound (.dir [] sampleVolume) ∧ depths (disks sampleVolume) < 3 ∧
    ∃ boot loaded, ramDiskLoad entryProtocol bumpAllocator 3 sampleMemory (.dir [] sampleVolume) = some (boot, loaded) ∧
      ∃ after root, ramfsLoadDir bumpAllocator 3 boot loaded = some (after, root) ∧
        ∃ file, ramfsOpen after root 0 [47, 100, 47, 97] = .ok file ∧ ramfsReads after file [1] = [[9]] := by
  have shallow : depths (disks sampleVolume) < 3 := by decide
  obtain ⟨boot, loaded, read, after, root, copied, opens⟩ :=
    boot_volume_preserved bumpAllocator bumpAllocator sampleMemory sampleVolume_sound.shown sampleVolume_sound 3 shallow
  refine ⟨sampleVolume_sound, shallow, boot, loaded, read, after, root, copied, ?_⟩
  have words : ∀ name ∈ [[100], [97]], Word name := by
    intro name inside
    rcases List.mem_pair.mp inside with rfl | rfl
    · exact word_of_all [100] (by decide) (by decide)
    · exact word_of_all [97] (by decide) (by decide)
  obtain ⟨file, opened, reads⟩ := opens after (Agree.refl after) 0 [[100], [97]] words
  exact ⟨file, opened, (reads [1]).1⟩

end Asym.BootDisk
