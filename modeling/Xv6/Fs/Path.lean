import Xv6.Fs.Inode
import Xv6.Fs.File

/-!
# Path names

`skipelem`, `namex`, `namei` and `nameiparent` of fs.c, with `dirlookup` and `namecmp` below
them. A path is the bytes of a C string: the list ends where the string's NUL is, and a 0 byte
inside it ends it too. The name buffer is DIRSIZ bytes; skipelem copies an element into it with
a NUL after it when it is shorter than DIRSIZ, and without one when it is not.

The path layer sees an inode through `ilock`, which reads its type, and through `readi`, which
for a directory returns its bytes (`Data.readi`). `iget`, `idup`, `iunlock` and `iput` change
only reference counts and locks, which the model leaves out: an inode is its number. A kernel
panic is an error carrying its message.
-/

namespace Xv6.Fs

open Xv6.Bytes

/-- Bytes of a name in a directory entry. -/
def DIRSIZ : Nat := 14

/-- The root directory's inode number. -/
def ROOTINO : Nat := 1

/-- `'/'`. -/
def SLASH : UInt8 := 47

/-- `sizeof(struct dirent)`: a ushort inode number and the name. -/
def direntSize : Nat := 2 + DIRSIZ

/-- An inode as `ilock` and `readi` show it to the path layer: its type, 0 for a free inode,
and its bytes. writei keeps every file within MAXFILE blocks. -/
structure Node where
  type : UInt16
  data : List UInt8
  fits : data.length ≤ MAXFILE * BSIZE

/-- The inodes of the file system, by number. -/
abbrev Tree := Nat → Node

/-- `strncmp`: compare at most `n` bytes, stopping at a NUL of the first string. -/
def strncmp : List UInt8 → List UInt8 → Nat → Int
  | _, _, 0 => 0
  | p, q, n + 1 =>
    if p.headD 0 ≠ 0 ∧ p.headD 0 = q.headD 0 then strncmp p.tail q.tail n
    else (p.headD 0).toNat - (q.headD 0).toNat

/-- `namecmp`: two names compared as strings of at most DIRSIZ bytes. -/
def namecmp (s t : Block DIRSIZ) : Int :=
  strncmp (s.bytes 0 DIRSIZ) (t.bytes 0 DIRSIZ) DIRSIZ

/-- The name of the entry `de` read from a directory. -/
def direntName (de : List UInt8) : Block DIRSIZ := fun j => (de.drop 2).getD j.val 0

/-- dirlookup's loop from offset `off`; `fuel` bounds the entries, and dirlookup gives one per
byte. An entry that readi returns short of `sizeof(de)` is a panic. -/
def dirlookupLoop (data : List UInt8) (name : Block DIRSIZ) :
    (fuel off : Nat) → Except String (Option Nat)
  | 0, _ => .ok none
  | fuel + 1, off =>
    if off < data.length then
      let de := (Data.readi data off direntSize).getD []
      if de.length ≠ direntSize then .error "dirlookup read"
      else if (readLe16 de).1 = 0 then dirlookupLoop data name fuel (off + direntSize)
      else if namecmp name (direntName de) = 0 then .ok (some (readLe16 de).1.toNat)
      else dirlookupLoop data name fuel (off + direntSize)
    else .ok none

/-- `dirlookup`: the inode of the first live entry of directory `dp` with this name. -/
def dirlookup (tree : Tree) (dp : Nat) (name : Block DIRSIZ) : Except String (Option Nat) :=
  if (tree dp).type ≠ T_DIR then .error "dirlookup not DIR"
  else dirlookupLoop (tree dp).data name (tree dp).data.length 0

/-- The bytes skipelem copies into the name buffer for an element: DIRSIZ of them without a NUL
when the element is that long, else the element and a NUL. -/
def elemBytes (elem : List UInt8) : List UInt8 :=
  if elem.length ≥ DIRSIZ then elem.take DIRSIZ else elem ++ [0]

/-- A byte of a path element: `*path != '/' && *path != 0`. -/
def elemByte (c : UInt8) : Bool := c != SLASH && c != 0

/-- `skipelem`: the path after its next element, with the element copied into the name buffer,
or none when only slashes are left. -/
def skipelem (path : List UInt8) (name : Block DIRSIZ) : Option (List UInt8 × Block DIRSIZ) :=
  let path := path.dropWhile (· == SLASH)
  if path.headD 0 = 0 then none
  else
    let elem := path.takeWhile elemByte
    some ((path.dropWhile elemByte).dropWhile (· == SLASH), name.writeBytes 0 (elemBytes elem))

/-- namex's loop from inode `ip`; `fuel` bounds the turns, and namex gives one more than the path
has bytes, which is more than skipelem can take. For `nameiparent` the loop stops one level early,
at the directory of the last component. -/
def namexLoop (tree : Tree) (nameiparent : Bool) :
    (fuel : Nat) → (ip : Nat) → List UInt8 → Block DIRSIZ →
      Except String (Option Nat × Block DIRSIZ)
  | 0, ip, _, name => .ok (if nameiparent then none else some ip, name)
  | fuel + 1, ip, path, name =>
    match skipelem path name with
    | none => .ok (if nameiparent then none else some ip, name)
    | some (path, name) =>
      if (tree ip).type = 0 then .error "ilock: no type"
      else if (tree ip).type ≠ T_DIR then .ok (none, name)
      else if nameiparent ∧ path.headD 0 = 0 then .ok (some ip, name)
      else
        match dirlookup tree ip name with
        | .error e => .error e
        | .ok none => .ok (none, name)
        | .ok (some next) => namexLoop tree nameiparent fuel next path name

/-- The inode a path starts from: the root for a path that begins with a slash, else the
working directory. -/
def startOf (path : List UInt8) (cwd : Nat) : Nat :=
  if path.headD 0 = SLASH then ROOTINO else cwd

/-- `namex`: the inode the path names, or its parent with the last element in the name buffer;
none for 0. -/
def namex (tree : Tree) (cwd : Nat) (path : List UInt8) (nameiparent : Bool)
    (name : Block DIRSIZ) : Except String (Option Nat × Block DIRSIZ) :=
  namexLoop tree nameiparent (path.length + 1) (startOf path cwd) path name

/-- `namei`, with its own name buffer. -/
def namei (tree : Tree) (cwd : Nat) (path : List UInt8) : Except String (Option Nat) :=
  (namex tree cwd path false fun _ => 0).map Prod.fst

/-- `nameiparent`, which leaves the last element in the caller's buffer. -/
def nameiparent (tree : Tree) (cwd : Nat) (path : List UInt8) (name : Block DIRSIZ) :
    Except String (Option Nat × Block DIRSIZ) :=
  namex tree cwd path true name

end Xv6.Fs
