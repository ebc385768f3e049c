import Speculos.Lib.Octets
import Speculos.Lib.Memory
import Speculos.Lib.Slices
import Speculos.Protocol.Ledger
import Speculos.Protocol.RxLaws
import Speculos.Protocol.Reassembly
import Speculos.Protocol.TxLaws
import Speculos.Lib.Effect
import Speculos.Transport.Construct
import Speculos.Transport.Usb
import Speculos.Transport.Nfc
import Speculos.Transport.UsbLaws
import Speculos.Transport.Send
import Speculos.Transport.HidReceive
import Speculos.Transport.Receive
import Speculos.Transport.UsbQueue
import Speculos.Lib.Lts
import Speculos.Protocol.HidResponses
import Speculos.Protocol.TxAlike
import Speculos.Mcu.SocketHelper
import Speculos.Mcu.Steps
import Speculos.Mcu.Delivery
import Speculos.Mcu.Ticks
import Speculos.Api.ApduBridge
import Speculos.Api.Answers
import Speculos.Rle.RleCustom
import Speculos.Rle.Format
import Speculos.Rle.RoundTrip
import Speculos.Rle.NbglRle
import Speculos.Rle.Filling
import Speculos.Rle.Unpacking
import Speculos.Rle.Inside
import Speculos.Lib.Tlv
import Speculos.Seph.Descriptor
import Speculos.Seph.Seproxyhal
import Speculos.Seph.LegacyReception
import Speculos.Seph.Io
import Speculos.Seph.TxFraming
import Speculos.Seph.RxBounded
import Speculos.Seph.EventOrder
import Speculos.Seph.RxClipping
import Speculos.Seph.RawApdu
import Speculos.Lib.Dict
import Speculos.Bip32.AllowList
import Speculos.Bip32.CheckPath
import Speculos.Bip32.CheckPathReads
import Speculos.Bip32.CxMath
import Speculos.Bip32.Standard
import Speculos.Bip32.HdwBip32
import Speculos.Bip32.HdwBip32Laws
import Speculos.Bip32.HdwEd25519Laws
import Speculos.Display.FrameBuffer
import Speculos.Display.Screenshot
import Speculos.Display.Shown
import Speculos.Display.VncView
import Speculos.Display.Ocr
import Speculos.Display.Bagl
import Speculos.Display.BaglDrawing
import Speculos.Display.BaglBitmap
import Speculos.Display.BitmapClipping
import Speculos.Display.Nbgl
import Speculos.Display.NbglFraming
import Speculos.Display.NbglFile
import Speculos.Display.ImageFill
import Speculos.Display.NbglRoundTrip
import Speculos.Lib.Window
import Speculos.Hdkey.Zip32
import Speculos.Hdkey.Zip32Fold
import Speculos.Hdkey.RegisteredDerive
import Speculos.Hdkey.TagSequences
import Speculos.Hdkey.Derive
import Speculos.Pki.OsPki
import Speculos.Pki.Fields
import Speculos.Pki.FieldReads
import Speculos.Pki.Found
import Speculos.Pki.Inheritance
import Speculos.Pki.Probes
import Speculos.Pki.Validity
import Speculos.Pki.ChainOfTrust
import Speculos.Pki.CertificateBounds
import Speculos.Launcher.Launcher
import Speculos.Launcher.NvmWrite
import Speculos.Launcher.NvramFile
import Speculos.Launcher.NvmBounds
import Speculos.Launcher.DerivationPath
import Speculos.Hash.Streaming
import Speculos.Hash.HmacReuse
import Speculos.Eip2333.Eip2333Laws
import Speculos.Lib.BlockMemory
import Speculos.Aes.CxAes
import Speculos.Bn.Leaks
import Speculos.Svc.Patching
import Speculos.Svc.SigillHandler
import Speculos.Svc.LibraryCalls
import Speculos.Svc.LibraryNvram
import Speculos.Svc.PatchSvc
import Speculos.Ec.SigDer
import Speculos.Lib.TwistedEdwards
import Speculos.Lib.Registers
import Speculos.Ec.Domain
import Speculos.Ec.Point
import Speculos.Hdkey.SeedHmac
import Speculos.Ec.PointSlots
import Speculos.Crc.CxCrc
import Speculos.Hash.Shake
import Speculos.Lib.BitString
import Speculos.Lib.InPlace
import Speculos.Hash.Fips180
import Speculos.Hash.Keccak
import Speculos.Hash.Sha2Block
import Speculos.Hash.CxHkdf
import Speculos.Lib.CString
import Speculos.Environment.Seed
import Speculos.Environment.AppName
import Speculos.Bn.Integers
import Speculos.Lib.Bytewise
import Speculos.Bn.Sums
import Speculos.Bn.BitOps
import Speculos.Bn.CntBits
import Speculos.Bn.NextPrime
import Speculos.Ec.CxEc
import Speculos.Ec.EcdsaSign
import Speculos.Ec.RecoveryInfo
import Speculos.Lib.ExtendedEdwards
import Speculos.Lib.Primality
import Speculos.Bn.Modular
import Speculos.Bn.MathSyscalls
import Speculos.Rng.Rfc6979
import Speculos.Lib.HashToField
import Speculos.Bls.HashToField
import Speculos.Lib.Gauss
import Speculos.Bls.Blst
import Speculos.Bls.Pow
import Speculos.Bls.SqrtRatio
import Speculos.Lib.SimplifiedSwu
import Speculos.Lib.CubicRemainder
import Speculos.Bls.SimpleSwu
import Speculos.Ec.EdwardsCurve
import Speculos.Ec.ScalarBits
import Speculos.Ec.EdwardsMul
import Speculos.Ec.ScalarMultiples
import Speculos.Lib.Rfc7748
import Speculos.Ec.MontgomeryLadder
import Speculos.Ec.MontgomeryMul
import Speculos.Lib.PlaneCurve
import Speculos.Ec.AffineCurve
import Speculos.Ec.PointNegation
import Speculos.Lib.Network
import Speculos.Usbd.Handle
import Speculos.Usbd.Descriptors
import Speculos.Usbd.Ctlreq
import Speculos.Usbd.StateFields
import Speculos.Usbd.States
import Speculos.Usbd.ControlTransfer
import Speculos.Exchange.Emulator
import Speculos.Exchange.Application
import Speculos.Exchange.Session
import Speculos.Exchange.Enumeration
import Speculos.Exchange.Run
import Speculos.Lib.MachineInt
import Speculos.Curve25519.FieldElement
import Speculos.Curve25519.Multiplication
import Speculos.Curve25519.Bytes
import Speculos.Curve25519.Scalarmult
import Speculos.Mcu.TimeTicker
import Speculos.Hash.CxBlake2b
import Speculos.Ec.Ed25519Compression
