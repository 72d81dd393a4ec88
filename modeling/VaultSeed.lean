import VaultSeed.Foundation.Bytes
import VaultSeed.Foundation.Effect
import VaultSeed.Foundation.Runs
import VaultSeed.Foundation.Text
import VaultSeed.Foundation.Digits
import VaultSeed.Foundation.Bits
import VaultSeed.Foundation.Positional
import VaultSeed.Foundation.Chunks
import VaultSeed.Foundation.Numerals
import VaultSeed.Foundation.Numbered
import VaultSeed.Foundation.Dict
import VaultSeed.Foundation.Memory
import VaultSeed.Foundation.Windows
import VaultSeed.Foundation.Occurrences
import VaultSeed.Foundation.Wrapping
import VaultSeed.Foundation.Packed
import VaultSeed.Foundation.Rotation
import VaultSeed.Foundation.Loops
import VaultSeed.Kef.Aes
import VaultSeed.Kef.Cipher
import VaultSeed.Kef.Envelope
import VaultSeed.Kef.RoundTrip
import VaultSeed.Kef.Acceptance
import VaultSeed.Kef.Authentication
import VaultSeed.Kef.Retries
import VaultSeed.Kef.Unfaithful
import VaultSeed.Kef.Suggestion
import VaultSeed.Vault.Device
import VaultSeed.Vault.Platform
import VaultSeed.Vault.Sample
import VaultSeed.Vault.Manager
import VaultSeed.Vault.Identifiers
import VaultSeed.Vault.Pages
import VaultSeed.Vault.Sealing
import VaultSeed.Vault.Writes
import VaultSeed.Vault.Updates
import VaultSeed.Vault.Unlocking
import VaultSeed.Vault.Creation
import VaultSeed.Vault.Boot
import VaultSeed.Vault.Flow
import VaultSeed.Vault.Saving
import VaultSeed.Vault.Provenance
import VaultSeed.Vault.Identity
import VaultSeed.Vault.Steps
import VaultSeed.Vault.Store
import VaultSeed.Vault.Atomicity
import VaultSeed.Vault.Crash
import VaultSeed.Vault.Reading
import VaultSeed.Vault.Confirmation
import VaultSeed.Vault.Copying
import VaultSeed.Vault.Restore
import VaultSeed.Vault.Mirror
import VaultSeed.Vault.Recovery
import VaultSeed.Vault.Capture
import VaultSeed.Baseconv.Base43
import VaultSeed.Baseconv.PurePython
import VaultSeed.Baseconv.Agreement
import VaultSeed.Baseconv.Bijection
import VaultSeed.Baseconv.Overflow
import VaultSeed.Qr.Bbqr
import VaultSeed.Baseconv.Base32
import VaultSeed.Baseconv.Codec
import VaultSeed.Qr.Parser
import VaultSeed.Qr.Headers
import VaultSeed.Qr.Reassembly
import VaultSeed.Qr.Animation
import VaultSeed.Qr.Capacity
import VaultSeed.Qr.Pbm
import VaultSeed.Firmware.Kboot
import VaultSeed.Firmware.Inspection
import VaultSeed.Firmware.Scanning
import VaultSeed.Firmware.Releases
import VaultSeed.Firmware.Flash
import VaultSeed.Firmware.WriteData
import VaultSeed.Firmware.Turns
import VaultSeed.Firmware.Upgrade
import VaultSeed.Firmware.Selection
import VaultSeed.Firmware.Writing
import VaultSeed.Firmware.Streaming
import VaultSeed.Firmware.Gate
import VaultSeed.Firmware.Sectors
import VaultSeed.Firmware.PowerLoss
import VaultSeed.Firmware.BootEntry
import VaultSeed.Firmware.Containment
import VaultSeed.Settings.Json
import VaultSeed.Settings.Store
import VaultSeed.Settings.Tree
import VaultSeed.Settings.FlatMap
import VaultSeed.Settings.Loading
import VaultSeed.Settings.Persistence
import VaultSeed.Bip39.Mnemonic
import VaultSeed.Bip39.Encoding
import VaultSeed.Bip39.RoundTrip
import VaultSeed.Ui.Display
import VaultSeed.Ui.Fitting
import VaultSeed.Ui.Paging
import VaultSeed.Ui.Touch
import VaultSeed.Ui.Input
import VaultSeed.Ui.Prompt
import VaultSeed.Ui.Menu
import VaultSeed.Ui.Keypad
import VaultSeed.Foundation.Galois
import VaultSeed.Foundation.Registers
import VaultSeed.Foundation.Locators
import VaultSeed.Quirc.Galois
import VaultSeed.Foundation.Accumulate
import VaultSeed.Quirc.Polynomials
import VaultSeed.Quirc.Correction
import VaultSeed.Quirc.Format
import VaultSeed.Qrcodegen.ReedSolomon
import VaultSeed.Foundation.Painting
import VaultSeed.Qrcodegen.Modules
import VaultSeed.Qrcodegen.Drawing
import VaultSeed.Qrcodegen.Capacity
import VaultSeed.Foundation.Interleaving
import VaultSeed.Qrcodegen.Codewords
import VaultSeed.Qrcodegen.Segments
import VaultSeed.Qrcodegen.Penalty
import VaultSeed.Qrcodegen.Encode
import VaultSeed.Quirc.Reading
import VaultSeed.Quirc.Layout
import VaultSeed.Quirc.Blocks
import VaultSeed.Quirc.Payload
import VaultSeed.Quirc.Spelling
import VaultSeed.Qrcodegen.Binding
import VaultSeed.Quirc.RoundTrip
import VaultSeed.Qrcodegen.Masking
import VaultSeed.Foundation.LowBits
import VaultSeed.Foundation.Ring
import VaultSeed.Foundation.Copies
import VaultSeed.Uzlib.Compress
import VaultSeed.Uzlib.Trees
import VaultSeed.Uzlib.Inflate
import VaultSeed.Uzlib.Checksums
import VaultSeed.Uzlib.DeflateIO
import VaultSeed.Uzlib.Search
import VaultSeed.Foundation.Canonical
import VaultSeed.Uzlib.Tokens
import VaultSeed.Uzlib.Decoding
import VaultSeed.Uzlib.RoundTrip
import VaultSeed.Uzlib.Codes
import VaultSeed.Uzlib.Safety
import VaultSeed.Uzlib.Callers
