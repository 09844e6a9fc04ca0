import UpgradeSafety.Chain.Added
import UpgradeSafety.Diff.Compare
import UpgradeSafety.Footprint.Expand

/-! The check of one layout against another: both footprints, their comparison, and the added bytes
on the chain. The differences found on the chain follow those of the comparison, also when some
slots could not be read. -/
namespace UpgradeSafety

/-- Why a check has no answer, or only a part of it. -/
inductive CheckFault where
  | expansion (fault : ExpansionFault)
  /-- Some slots were not read; the differences are all that were found nevertheless. -/
  | unread (fault : ReadFault) (diffs : List Diff)
  | shortWord

namespace CheckFault

def ofReference (f : ReferenceFault) : CheckFault :=
  .expansion (.ofReference f)

/-- The fault of the chain's part, after the differences of the comparison. -/
def ofAdded (diffs : List Diff) : AddedFault → CheckFault
  | .unread fault more => .unread fault (diffs ++ more)
  | .shortWord => .shortWord

end CheckFault

namespace Layout

/-- The footprint of a layout, with the log of its expansion. -/
def loggedFootprint (hash : Hash) (l : Layout) : Journal CheckEvent CheckFault ByteMap := do
  let map ← ((l.footprint hash).mapNotes fun o => .chain (.log o.logLine false)).mapError .expansion
  .note (.logged .debug ("字节映射构建完成: " ++ toString l.storage.length ++ " 个顶层变量, " ++
    toString map.size ++ " 个字节"))
  return map

/-- Checks that a contract may go from the layout `src` to the layout `cmp`. -/
def check (hash : Hash) (src cmp : Layout) (checkRemovals : Bool) (address : Option Text)
    (reader : Option Reader) (workers : Workers) :
    Journal CheckEvent CheckFault (List Diff) := do
  let before ← src.loggedFootprint hash
  let after ← cmp.loggedFootprint hash
  let c ← .ofExcept
    ((Comparison.of src cmp before after checkRemovals).mapError CheckFault.ofReference)
  .note (.logged .info ("布局对比完成: 参考 " ++ toString before.size ++ " 字节, 候选 " ++
    toString after.size ++ " 字节, " ++ toString c.diffs.length ++ " 处差异, " ++
    toString c.added.length ++ " 个新增字节"))
  let more ← (Added.check c.added address reader workers).mapError (CheckFault.ofAdded c.diffs)
  return c.diffs ++ more

end Layout

end UpgradeSafety
