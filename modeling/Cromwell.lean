import Cromwell.Lib.ByteMemory
import Cromwell.Lib.Buffer
import Cromwell.Lib.Comp
import Cromwell.Lib.Settles
import Cromwell.Lib.RetryScan
import Cromwell.BootLibrary
import Cromwell.MemoryManager.Allocator
import Cromwell.MemoryManager.Table
import Cromwell.MemoryManager.Run
import Cromwell.MemoryManager.Safety
import Cromwell.MemoryManager.Client
import Cromwell.Flash.Driver
import Cromwell.Flash.Reflash
import Cromwell.Flash.NorChip
import Cromwell.Flash.ReflashProof
import Cromwell.Flash.Callbacks
import Cromwell.Flash.Detection
import Cromwell.Flash.Frame
import Cromwell.Flash.Retries
import Cromwell.Flash.Erasure
import Cromwell.Flash.Admission
import Cromwell.Flash.Installation
import Cromwell.Http.Server
import Cromwell.Http.Upload
import Cromwell.Http.Run
import Cromwell.Http.Extraction
import Cromwell.Image.Builder
import Cromwell.Image.Loader
import Cromwell.Image.Agreement
import Cromwell.Lib.BlockHash
import Cromwell.Crypt.Sha1
import Cromwell.Crypt.Sha1Digest
import Cromwell.Crypt.Rc4
import Cromwell.Hdd.Key
import Cromwell.Hdd.Hmac
import Cromwell.Hdd.Unseal
import Cromwell.Lib.Split
import Cromwell.Fatx.Partition
import Cromwell.Fatx.FindFile
import Cromwell.Fatx.Directory
import Cromwell.Fatx.Resolution
import Cromwell.Fatx.Geometry
import Cromwell.Lib.Walk
import Cromwell.Fatx.Walkers
import Cromwell.Fatx.LoadedFile
import Cromwell.Fatx.ChainWalk
import Cromwell.Fatx.Listing
import Cromwell.Fatx.DamagedDisk
import Cromwell.Lib.Along
import Cromwell.Http.Bounds
import Cromwell.Http.Sending
import Cromwell.Http.Ledger
import Cromwell.Iso.Iso9660
import Cromwell.Iso.ReadFile
import Cromwell.Iso.Directory
import Cromwell.Iso.Bounds
import Cromwell.Iso.GetFile
import Cromwell.Iso.Leaks
import Cromwell.Iso.Tree
import Cromwell.Iso.Names
import Cromwell.Iso.Lookup
import Cromwell.Lwip.Ebd
import Cromwell.Menu.TextMenu
import Cromwell.Menu.Window
import Cromwell.Eeprom.Settings
import Cromwell.Eeprom.Checksums
import Cromwell.Ide.BootIde
import Cromwell.Ide.Addressing
import Cromwell.Config.Text
import Cromwell.Config.BootParser
import Cromwell.Config.Scan
import Cromwell.Config.Lines
import Cromwell.Config.Bounds
import Cromwell.Config.Grammar
import Cromwell.Fatx.LoadConfig
import Cromwell.MemoryManager.Failure
import Cromwell.Image.Limits
import Cromwell.Image.Xbe
import Cromwell.Ide.Requests
import Cromwell.Eeprom.Damage
import Cromwell.Eeprom.Minimal
import Cromwell.Hdd.Concatenation
import Cromwell.Hdd.Identity
import Cromwell.Video.FocusPll
import Cromwell.Video.Crtc
import Cromwell.Boot.Files
import Cromwell.Boot.MemoryMap
import Cromwell.Iso.NameTranslate
import Cromwell.Lib.EdgeDetector
import Cromwell.Usb.RiseFall
import Cromwell.Config.Entries
import Cromwell.Config.DefaultEntry
import Cromwell.Config.OwnFields
import Cromwell.Lib.BitString
import Cromwell.Lib.Crc
import Cromwell.Lib.Lz77
import Cromwell.Lib.Canonical
import Cromwell.Lib.Ensures
import Cromwell.Gzip.Inbuf
import Cromwell.Gzip.Window
import Cromwell.Gzip.Huft
import Cromwell.Gzip.HuftTables
import Cromwell.Gzip.HuftBuild
import Cromwell.Gzip.Inflate
import Cromwell.Gzip.Decoding
import Cromwell.Gzip.Format
import Cromwell.Gzip.Blocks
import Cromwell.Gzip.Dynamic
import Cromwell.Gzip.Gunzip
import Cromwell.Gzip.Acceptance
import Cromwell.Image.Boot
