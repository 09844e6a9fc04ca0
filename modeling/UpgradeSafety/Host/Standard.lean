import UpgradeSafety.Chain.Address
import UpgradeSafety.Host.Libraries
import UpgradeSafety.Toml.Document

/-! The libraries of the command line. Slots are hashed with Keccak-256, addresses have forty
hexadecimal digits, and settings are written in plain TOML, without dates and without texts of
several lines. -/
namespace UpgradeSafety

def Libraries.standard : Libraries where
  hash := Keccak.digest
  isAddress := Address.isValid
  checksum? := Address.checksum?
  toml? text := Toml.read? text.toList
  pause := Pause.standard

end UpgradeSafety
